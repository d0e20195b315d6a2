import BytecodeMutation.Operator.Arithmetic
import BytecodeMutation.Operator.Calls
import BytecodeMutation.Operator.Conditionals
import BytecodeMutation.Text

namespace BytecodeMutation

inductive Operator where
  | conditionalsBoundary
  | increments
  | invertNegs
  | math
  | negateConditionals
  | returnVals
  | voidMethodCalls
  | nonVoidMethodCalls
  | removeConditionals (condition : Condition) (route : Route)
  | removeIncrements
  | inlineConsts
  deriving DecidableEq, Repr

namespace Operator

def all : List Operator :=
  [.conditionalsBoundary, .increments, .invertNegs, .math, .negateConditionals, .returnVals,
    .voidMethodCalls, .nonVoidMethodCalls, .removeConditionals .equality .fallThrough,
    .removeConditionals .equality .jump, .removeConditionals .ordering .fallThrough,
    .removeConditionals .ordering .jump, .removeIncrements, .inlineConsts]

theorem mem_all (o : Operator) : o ∈ all := by
  cases o <;> try decide
  next c s => cases c <;> cases s <;> decide

def name : Operator → String
  | .conditionalsBoundary => "CONDITIONALS_BOUNDARY"
  | .increments => "INCREMENTS"
  | .invertNegs => "INVERT_NEGS"
  | .math => "MATH"
  | .negateConditionals => "NEGATE_CONDITIONALS"
  | .returnVals => "RETURN_VALS"
  | .voidMethodCalls => "VOID_METHOD_CALLS"
  | .nonVoidMethodCalls => "NON_VOID_METHOD_CALLS"
  | .removeConditionals .equality .fallThrough => "REMOVE_CONDITIONALS_EQUAL_IF"
  | .removeConditionals .equality .jump => "REMOVE_CONDITIONALS_EQUAL_ELSE"
  | .removeConditionals .ordering .fallThrough => "REMOVE_CONDITIONALS_ORDER_IF"
  | .removeConditionals .ordering .jump => "REMOVE_CONDITIONALS_ORDER_ELSE"
  | .removeIncrements => "REMOVE_INCREMENTS"
  | .inlineConsts => "INLINE_CONSTS"

def id (o : Operator) : String := "jmutate.operators." ++ o.name

def description : Operator → String
  | .conditionalsBoundary => "Replaces relational operators with their boundary counterpart"
  | .increments => "Replaces increments of local variables with decrements and vice versa"
  | .invertNegs => "Inverts negation of numeric values"
  | .math => "Replaces binary arithmetic operations with another operation"
  | .negateConditionals => "Negates conditional branches"
  | .returnVals => "Mutates the return values of method calls"
  | .voidMethodCalls => "Removes calls to methods returning void"
  | .nonVoidMethodCalls =>
      "Replaces non-void method calls with the default value of their return type"
  | .removeConditionals .equality .fallThrough =>
      "Removes equality conditionals so the guarded block always runs"
  | .removeConditionals .equality .jump =>
      "Removes equality conditionals so the jump is always taken"
  | .removeConditionals .ordering .fallThrough =>
      "Removes ordering conditionals so the guarded block always runs"
  | .removeConditionals .ordering .jump =>
      "Removes ordering conditionals so the jump is always taken"
  | .removeIncrements => "Removes increments of local variables"
  | .inlineConsts => "Mutates inline constants"

def ofId? (id : String) : Option Operator := all.find? (·.id == id)

def ofName? (name : String) : Option Operator :=
  all.find? fun o => Text.equalIgnoringCase o.name name || o.id == name

def propose (o : Operator) (m : MethodHeader) (s : Site) : Except Fault (Option Proposal) :=
  match o with
  | .conditionalsBoundary => .ok (Conditional.moveBoundary s.instruction)
  | .increments => .ok (Arithmetic.negateIncrement s.instruction)
  | .invertNegs => .ok (Arithmetic.dropNegation s.instruction)
  | .math => .ok (Arithmetic.exchange s.instruction)
  | .negateConditionals => .ok (Conditional.negate s.instruction)
  | .returnVals => .ok (if m.isVoid then none else Return.change s.opcode)
  | .voidMethodCalls => Call.remove true s.symbol
  | .nonVoidMethodCalls => Call.remove false s.symbol
  | .removeConditionals condition route => Conditional.remove condition route s.instruction
  | .removeIncrements => .ok (Arithmetic.dropIncrement s.instruction)
  | .inlineConsts => .ok (Arithmetic.substituteConstant s.instruction)

end Operator

end BytecodeMutation
