import Depot.Tar.Header

/-!
Reading tar files of the old, ustar and GNU dialects. Members that only describe the next one (long
names, extended headers) are folded into it. A file ends with a block of zeros or where its bytes
end; anything else that is cut short or does not add up makes the whole file unreadable.
-/
namespace Depot.Tar

/-- A member: its full name, the byte that tells its kind, and its content. -/
structure Member where
  name : Bytes
  kind : UInt8
  data : Bytes
  deriving DecidableEq

def Member.isFile (m : Member) : Bool :=
  m.kind == 0 || m.kind == 0x30

/-! ### Extended headers -/

def lines : Bytes → List Bytes
  | [] => [[]]
  | b :: bs =>
    if b = 0x0a then [] :: lines bs
    else
      match lines bs with
      | [] => [[b]]
      | l :: ls => (b :: l) :: ls

/-- The decimal number that some bytes spell, perhaps behind a plus. -/
def decimal? (digits : Bytes) : Option Nat :=
  let digits := match digits with
    | 0x2b :: rest => rest
    | _ => digits
  if digits = [] then none
  else
    (digits.mapM fun b => if 0x30 ≤ b ∧ b ≤ 0x39 then some (b.toNat - 0x30) else none).map
      fun ds => ds.foldl (fun n d => n * 10 + d) 0

/-- A record of an extended header: its length, a blank, and a key and a value around an equals
sign. The length counts the line end. -/
def extension? (line : Bytes) : Option (Bytes × Bytes) :=
  match line.span (· ≠ 0x20) with
  | (length, 0x20 :: rest) =>
    if decimal? length = some (line.length + 1) then
      match rest.span (· ≠ 0x3d) with
      | (key, 0x3d :: value) => some (key, value)
      | _ => none
    else none
  | _ => none

/-- The records of an extended header, `none` for lines that are none. An empty line ends it. -/
def extensions (b : Bytes) : List (Option (Bytes × Bytes)) :=
  ((lines b).takeWhile (· ≠ [])).map extension?

/-- The key of the name of a member. -/
def pathKey : Bytes := [0x70, 0x61, 0x74, 0x68]

/-- The key of the size of a member. -/
def sizeKey : Bytes := [0x73, 0x69, 0x7a, 0x65]

/-- The name that an extended header gives; lines that are no records are passed over. -/
def extendedName? (b : Bytes) : Option Bytes :=
  (((extensions b).filterMap id).find? fun e => e.1 = pathKey).map Prod.snd

/-- The size that some records give. A line before it that is no record hides it. -/
def extendedSizeOf : List (Option (Bytes × Bytes)) → Option Nat
  | [] => none
  | none :: _ => none
  | some (key, value) :: rest =>
    if key = sizeKey then (decimal? value).bind fun n => if n < UInt64.size then some n else none
    else extendedSizeOf rest

def extendedSize? (b : Bytes) : Option Nat :=
  extendedSizeOf (extensions b)

/-! ### Sparse files

They are never read here, but a sparse file whose map does not add up makes the tar unreadable. -/

/-- The entries of a sparse map with an offset and a length. -/
def sparseEntries : Nat → Bytes → Option (List (Nat × Nat))
  | 0, _ => some []
  | n + 1, b =>
    let offset := slice b 0 12
    let length := slice b 12 12
    (sparseEntries n (b.drop 24)).bind fun rest =>
      -- an entry that begins with a NUL is not in use
      if offset.head? = some 0 ∨ length.head? = some 0 then some rest
      else
        (number? offset).bind fun o => (number? length).map fun l => (o, l) :: rest

/-- The blocks that continue a sparse map, and what follows them. The first argument bounds their
number. -/
def sparseBlocks : Nat → Bytes → Option (List (Nat × Nat) × Bytes)
  | 0, _ => none
  | n + 1, b =>
    if b.length < blockSize then none
    else
      (sparseEntries 21 b).bind fun entries =>
        if b.getD 504 0 = 1 then
          (sparseBlocks n (b.drop blockSize)).map fun p => (entries ++ p.1, p.2)
        else some (entries, b.drop blockSize)

/-- A sparse map: chunks in order, each but the last ending at a block end, that hold all the stored
bytes and reach the real size. `size` bytes are stored, `left` of them are still to be placed, and
the file has been laid out up to `here`. -/
def sparseFits (size realSize : Nat) : Nat → Nat → List (Nat × Nat) → Bool
  | left, here, [] => here == realSize && left == 0
  | left, here, (offset, length) :: rest =>
    (length == 0 || (size - left) % blockSize == 0) && here ≤ offset && offset + length < UInt64.size &&
      length ≤ left && sparseFits size realSize (left - length) (offset + length) rest

/-- What follows the map of a sparse file, if the map adds up. -/
def sparseRest? (header : Bytes) (size : Nat) (b : Bytes) : Option Bytes :=
  if dialect header ≠ .gnu then none
  else do
    let first ← sparseEntries 4 (slice header 386 96)
    let (more, rest) ←
      if header.getD 482 0 = 1 then sparseBlocks b.length b else some ([], b)
    let realSize ← number? (slice header 483 12)
    if sparseFits size realSize size 0 (first ++ more) then some rest else none

/-! ### Members -/

/-- What earlier members say of the next one. -/
structure Foretold where
  longName : Option Bytes
  longLink : Option Bytes
  extended : Option Bytes

def Foretold.nothing : Foretold := ⟨none, none, none⟩

def Foretold.isSomething (f : Foretold) : Bool :=
  f.longName.isSome || f.longLink.isSome || f.extended.isSome

/-- A long name without the NUL that may end it. -/
def withoutFinalNul (name : Bytes) : Bytes :=
  if name.getLast? = some 0 then name.dropLast else name

def fullName (f : Foretold) (header : Bytes) : Bytes :=
  match f.longName with
  | some name => withoutFinalNul name
  | none => ((f.extended.bind extendedName?)).getD (headerName header)

/-- The kinds of members that only describe others: long names, long links, and extended headers for
the next member or for all. -/
def isDescription (kind : UInt8) : Bool :=
  kind == 0x4c || kind == 0x4b || kind == 0x78 || kind == 0x67

/-- The size of a member: the one in its extended header, and else the one in its header, which must
be a number in either case. An extended header does not tell the size of another description. -/
def memberSize? (f : Foretold) (header : Bytes) : Option Nat :=
  (number? (slice header 124 12)).map fun n =>
    if isDescription (kindByte header) then n else (f.extended.bind extendedSize?).getD n

/-- The header at the head of the bytes passes its checksum. -/
def checksumHolds (header : Bytes) : Bool :=
  octal? (slice header 148 8) |>.any fun n => n % UInt32.size == checksum header

/-- The members of a tar file from a block start on; none if the file is damaged. -/
def membersFrom (f : Foretold) (b : Bytes) : Option (List Member) :=
  if b = [] then if f.isSomething then none else some []
  else if _h : b.length < blockSize then none
  else
    let header := b.take blockSize
    if header.all (· = 0) then if f.isSomething then none else some []
    else if !checksumHolds header then none
    else
      match memberSize? f header with
      | none => none
      | some size =>
        let rest := b.drop blockSize
        if rest.length < roundUp size then none
        else
          let data := rest.take size
          let next := rest.drop (roundUp size)
          let kind := kindByte header
          -- the old dialect has no kinds that describe others; there they are members
          let known := dialect header ≠ .old
          if known ∧ kind = 0x4c then
            if f.longName.isSome then none else membersFrom { f with longName := some data } next
          else if known ∧ kind = 0x4b then
            if f.longLink.isSome then none else membersFrom { f with longLink := some data } next
          else if known ∧ kind = 0x78 then
            if f.extended.isSome then none else membersFrom { f with extended := some data } next
          else if kind = 0x53 then
            match sparseRest? header size rest with
            | none => none
            | some after =>
              if after.length < roundUp size then none
              else
                -- the map took blocks of its own before the content
                let next := after.drop (roundUp size)
                if _h' : next.length < b.length then
                  (membersFrom .nothing next).map (⟨fullName f header, kind, []⟩ :: ·)
                else none
          else
            (membersFrom .nothing next).map (⟨fullName f header, kind, data⟩ :: ·)
termination_by b.length
decreasing_by
  all_goals
    simp only [blockSize] at _h
    first
      | assumption
      | (simp only [List.length_drop, blockSize]; omega)

/-- The members of a tar file; none if the file is damaged. -/
def decode (b : Bytes) : Option (List Member) :=
  membersFrom .nothing b

end Depot.Tar
