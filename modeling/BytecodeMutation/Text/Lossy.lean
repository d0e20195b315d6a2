import BytecodeMutation.Text.ModifiedUtf8

namespace BytecodeMutation.Text

def replacement : Char := '\ufffd'

def following? (a : UInt8) : Option (UInt8 × UInt8 × Nat) :=
  if a < 0xc2 then none
  else if a < 0xe0 then some (0x80, 0xbf, 0)
  else if a < 0xf0 then some (if a == 0xe0 then 0xa0 else 0x80, if a == 0xed then 0x9f else 0xbf, 1)
  else if a < 0xf5 then some (if a == 0xf0 then 0x90 else 0x80, if a == 0xf4 then 0x8f else 0xbf, 2)
  else none

def lossyAfter (acc : List Char) : Bytes → List Char
  | [] => acc.reverse
  | a :: s =>
      if a < 0x80 then lossyAfter (.ofNat a.toNat :: acc) s
      else match following? a with
        | none => lossyAfter (replacement :: acc) s
        | some (low, high, more) =>
            match s with
            | [] => (replacement :: acc).reverse
            | b :: t =>
                if b < low || high < b then lossyAfter (replacement :: acc) (b :: t)
                else if more == 0 then lossyAfter (.ofNat (two a b) :: acc) t
                else match t with
                  | [] => (replacement :: acc).reverse
                  | c :: u =>
                      if !isContinuation c then lossyAfter (replacement :: acc) (c :: u)
                      else if more == 1 then lossyAfter (.ofNat (three a b c) :: acc) u
                      else match u with
                        | [] => (replacement :: acc).reverse
                        | d :: v =>
                            if !isContinuation d then lossyAfter (replacement :: acc) (d :: v)
                            else lossyAfter (.ofNat (four a b c d) :: acc) v

def lossyUtf8 (s : Bytes) : String := .ofList (lossyAfter [] s)

end BytecodeMutation.Text
