import BytecodeMutation.Error

namespace BytecodeMutation.Operator

def defaults : List Operator :=
  [.conditionalsBoundary, .increments, .invertNegs, .math, .negateConditionals, .returnVals,
    .voidMethodCalls]

def stronger : List Operator := defaults ++ [.removeConditionals .equality .jump]

def removals : List Operator :=
  [.removeConditionals .equality .fallThrough, .removeConditionals .equality .jump,
    .removeConditionals .ordering .fallThrough, .removeConditionals .ordering .jump]

def select (name : String) : Except EngineError (List Operator) :=
  let group := Text.trim name
  if Text.equalIgnoringCase group "DEFAULTS" then .ok defaults
  else if Text.equalIgnoringCase group "STRONGER" then .ok stronger
  else if Text.equalIgnoringCase group "REMOVE_CONDITIONALS" then .ok removals
  else if Text.equalIgnoringCase group "ALL" then .ok all
  else match ofName? group with
    | some o => .ok [o]
    | none => .error (.unknownOperator name)

def parse (name : String) : Except EngineError Operator :=
  match ofName? name with
  | some o => .ok o
  | none => .error (.unknownOperator name)

def addNew (chosen : List Operator) : List Operator → List Operator
  | [] => chosen
  | o :: os => addNew (if o ∈ chosen then chosen else chosen ++ [o]) os

theorem nodup_addNew {chosen os : List Operator} (h : chosen.Nodup) : (addNew chosen os).Nodup := by
  induction os generalizing chosen with
  | nil => exact h
  | cons o os ih =>
      simp only [addNew]
      split
      · exact ih h
      · rename_i ho
        refine ih (List.nodup_append.2 ⟨h, by simp, ?_⟩)
        simp only [List.mem_singleton]
        rintro a ha b rfl rfl
        exact ho ha

def resolveFrom (chosen : List Operator) : List String → Except EngineError (List Operator)
  | [] => .ok chosen
  | name :: names => match select name with
      | .ok os => resolveFrom (addNew chosen os) names
      | .error e => .error e

def resolve (names : List String) : Except EngineError (List Operator) :=
  resolveFrom [] names

end BytecodeMutation.Operator
