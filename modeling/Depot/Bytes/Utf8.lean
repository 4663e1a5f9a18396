import Depot.Bytes

/-!
Reading bytes as text when they need not be well formed. Each maximal run of bytes that begins a
character but does not complete it, and each byte that begins none, stands for one missing
character. `symbols_ofText` says that well-formed text is read exactly.
-/
namespace Depot.Bytes

/-- A byte of the form `10xxxxxx`. -/
def isContinuation (b : UInt8) : Bool :=
  0x80 ≤ b && b ≤ 0xbf

/-- The second bytes that may follow the first byte of a three-byte character. -/
def isSecondOfThree (first b : UInt8) : Bool :=
  if first = 0xe0 then 0xa0 ≤ b && b ≤ 0xbf
  else if first = 0xed then 0x80 ≤ b && b ≤ 0x9f
  else isContinuation b

/-- The second bytes that may follow the first byte of a four-byte character. -/
def isSecondOfFour (first b : UInt8) : Bool :=
  if first = 0xf0 then 0x90 ≤ b && b ≤ 0xbf
  else if first = 0xf4 then 0x80 ≤ b && b ≤ 0x8f
  else isContinuation b

/-- The payload of a continuation byte. -/
def payload (b : UInt8) : Nat :=
  b.toNat % 0x40

/-- The character at the head of the bytes `first :: rest`, or `none` where there is none, and the
number of bytes of `rest` that belong to it. -/
def headSymbol (first : UInt8) (rest : Bytes) : Option Char × Nat :=
  -- 0xc0, 0xc1 and what lies above 0xf4 begin no character, like the continuation bytes
  if first < 0x80 then (some (Char.ofNat first.toNat), 0)
  else if 0xc2 ≤ first && first ≤ 0xdf then
    match rest with
    | b :: _ =>
      if isContinuation b then (some (Char.ofNat (first.toNat % 0x20 * 0x40 + payload b)), 1)
      else (none, 0)
    | [] => (none, 0)
  else if 0xe0 ≤ first && first ≤ 0xef then
    match rest with
    | b :: c :: _ =>
      if isSecondOfThree first b then
        if isContinuation c then
          (some (Char.ofNat ((first.toNat % 0x10 * 0x40 + payload b) * 0x40 + payload c)), 2)
        else (none, 1)
      else (none, 0)
    | [b] => if isSecondOfThree first b then (none, 1) else (none, 0)
    | [] => (none, 0)
  else if 0xf0 ≤ first && first ≤ 0xf4 then
    match rest with
    | b :: c :: d :: _ =>
      if isSecondOfFour first b then
        if isContinuation c then
          if isContinuation d then
            (some (Char.ofNat
              (((first.toNat % 0x8 * 0x40 + payload b) * 0x40 + payload c) * 0x40 + payload d)), 3)
          else (none, 2)
        else (none, 1)
      else (none, 0)
    | [b, c] =>
      if isSecondOfFour first b then if isContinuation c then (none, 2) else (none, 1)
      else (none, 0)
    | [b] => if isSecondOfFour first b then (none, 1) else (none, 0)
    | [] => (none, 0)
  else (none, 0)

/-- The characters of any bytes, with `none` in each place where they are ill formed. -/
def lenientSymbols : Bytes → List (Option Char)
  | [] => []
  | first :: rest =>
    let p := headSymbol first rest
    p.1 :: lenientSymbols (rest.drop p.2)
termination_by b => b.length

/-- The characters of a byte string; `none` stands for bytes that are no character. -/
def symbols (b : Bytes) : List (Option Char) :=
  match text? b with
  | some s => s.toList.map some
  | none => lenientSymbols b

/-- The text of any bytes, with the replacement character where they are ill formed. -/
def lossyText (b : Bytes) : String :=
  String.ofList ((symbols b).map (·.getD (Char.ofNat 0xfffd)))

theorem symbols_ofText (s : String) : symbols (ofText s) = s.toList.map some := by
  simp [symbols, text?_ofText]

theorem lossyText_ofText (s : String) : lossyText (ofText s) = s := by
  simp [lossyText, symbols_ofText, Function.comp_def]

example : lenientSymbols [0x61, 0xe2, 0x82, 0x62, 0xff, 0xc3, 0xa9] =
    [some 'a', none, some 'b', none, some 'é'] := by
  simp [lenientSymbols, headSymbol, isSecondOfThree, isContinuation, payload]

end Depot.Bytes
