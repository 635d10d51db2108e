import Splora.NewIndex.RawBlock

/-!
# Block files

`parse_blocks` of `src/new_index/fetch.rs`: records are a magic, a length and a block; other
bytes are skipped.  A record without a block is recognized by the next magic in the place of the
version.
-/

namespace Splora
namespace NewIndex
namespace BlkFile

open Foundation

inductive ParseError where
  | noBlockSize
  | sliceOutOfRange
  | failedToParse
  | outOfTurns
deriving DecidableEq, Repr

section Source

variable {B : Type} (magic : UInt32) (blob : Bytes)

def decodeU32 (pos : Nat) : Option UInt32 :=
  (readField 4 0 (blob.drop pos)).map fun field => field.1.toUInt32

def slice (start past : Nat) : Option Bytes :=
  if start ≤ past ∧ past ≤ blob.length then
    some ((blob.take past).drop start)
  else
    none

def turn (offset : Nat) : Except ParseError (Option (Nat × List (Bytes × UInt32))) :=
  match decodeU32 blob offset with
  | none => .ok none
  | some value =>
    if magic ≠ value then
      .ok (some (offset + 1, []))
    else
      match decodeU32 blob (offset + 4) with
      | none => .error .noBlockSize
      | some blockSize =>
        let start := offset + 8
        let past := start + blockSize.toNat
        match decodeU32 blob start with
        | none => .ok none
        | some value =>
          if magic = value then
            .ok (some (start, []))
          else
            match slice blob start past with
            | none => .error .sliceOutOfRange
            | some bytes => .ok (some (past, [(bytes, blockSize)]))

def scan : Nat -> Nat -> List (Bytes × UInt32) -> Except ParseError (List (Bytes × UInt32))
  | 0, _, _ => .error .outOfTurns
  | fuel + 1, pos, slices =>
    if pos < blob.length then do
      match <- turn magic blob pos with
      | none => return slices
      | some (next, found) => scan fuel next (slices ++ found)
    else
      return slices

def parseBlocks (deserialize : Bytes -> Option B) :
    Except ParseError (List (B × UInt32)) := do
  let slices <- scan magic blob (blob.length + 1) 0 []
  slices.mapM fun (bytes, size) => do
    let block <- expect (deserialize bytes) .failedToParse
    return (block, size)

end Source

/-!
## The turns of the loop
-/

section Turns

variable {magic : UInt32} {blob : Bytes} {pos next last : Nat}
  {found slices : List (Bytes × UInt32)}

structure SizeAt (magic : UInt32) (blob : Bytes) (pos : Nat) (size : UInt32) :
    Prop where
  magic_eq : decodeU32 blob pos = some magic
  size_eq : decodeU32 blob (pos + 4) = some size

inductive Step (magic : UInt32) (blob : Bytes) (pos : Nat) :
    Nat -> List (Bytes × UInt32) -> Prop where
  | skip {value : UInt32} : decodeU32 blob pos = some value -> magic ≠ value ->
      Step magic blob pos (pos + 1) []
  | bare {size : UInt32} : SizeAt magic blob pos size ->
      decodeU32 blob (pos + 8) = some magic -> Step magic blob pos (pos + 8) []
  | record {size version : UInt32} {bytes : Bytes} : SizeAt magic blob pos size ->
      decodeU32 blob (pos + 8) = some version -> magic ≠ version ->
      slice blob (pos + 8) (pos + 8 + size.toNat) = some bytes ->
      Step magic blob pos (pos + 8 + size.toNat) [(bytes, size)]

def Stops (magic : UInt32) (blob : Bytes) (pos : Nat) : Prop :=
  decodeU32 blob pos = none ∨
  exists size, SizeAt magic blob pos size ∧ decodeU32 blob (pos + 8) = none

def LacksSize (magic : UInt32) (blob : Bytes) (pos : Nat) : Prop :=
  decodeU32 blob pos = some magic ∧ decodeU32 blob (pos + 4) = none

def Overruns (magic : UInt32) (blob : Bytes) (pos : Nat) : Prop :=
  exists size version, SizeAt magic blob pos size ∧
    decodeU32 blob (pos + 8) = some version ∧ magic ≠ version ∧
    blob.length < pos + 8 + size.toNat

theorem slice_eq_none {start past : Nat} (hle : start ≤ past) :
    slice blob start past = none <-> blob.length < past := by
  unfold slice
  split <;> simp <;> omega

theorem decodeU32_eq_none : decodeU32 blob pos = none <-> blob.length < pos + 4 := by
  rw [decodeU32, Option.map_eq_none_iff, readField]
  simp only [Nat.zero_le, and_true, List.length_drop]
  split
  · simp
    omega
  · simp
    omega

theorem le_of_decodeU32 {value : UInt32} (h : decodeU32 blob pos = some value) :
    pos + 4 ≤ blob.length := by
  by_contra hlt
  rw [decodeU32_eq_none.mpr (by omega)] at h
  cases h

theorem turn_cases (magic : UInt32) (blob : Bytes) (pos : Nat) :
    Stops magic blob pos ∨ LacksSize magic blob pos ∨ Overruns magic blob pos ∨
      exists next found, Step magic blob pos next found := by
  cases hvalue : decodeU32 blob pos with
  | none => exact Or.inl (Or.inl hvalue)
  | some value =>
    by_cases hmagic : magic = value
    · rw [<- hmagic] at hvalue
      cases hsize : decodeU32 blob (pos + 4) with
      | none => exact Or.inr (Or.inl ⟨hvalue, hsize⟩)
      | some size =>
        have hat : SizeAt magic blob pos size := ⟨hvalue, hsize⟩
        cases hversion : decodeU32 blob (pos + 8) with
        | none => exact Or.inl (Or.inr ⟨size, hat, hversion⟩)
        | some version =>
          by_cases hbare : magic = version
          · rw [<- hbare] at hversion
            exact Or.inr (Or.inr (Or.inr ⟨_, _, .bare hat hversion⟩))
          · cases hslice : slice blob (pos + 8) (pos + 8 + size.toNat) with
            | none =>
              have hlong := (slice_eq_none (Nat.le_add_right _ _)).mp hslice
              exact Or.inr (Or.inr (Or.inl ⟨size, version, hat, hversion, hbare, hlong⟩))
            | some bytes =>
              exact Or.inr (Or.inr (Or.inr ⟨_, _, .record hat hversion hbare hslice⟩))
    · exact Or.inr (Or.inr (Or.inr ⟨_, _, .skip hvalue hmagic⟩))

theorem turn_of_step (h : Step magic blob pos next found) :
    turn magic blob pos = .ok (some (next, found)) := by
  cases h with
  | skip hvalue hmagic => simp [turn, hvalue, hmagic]
  | bare hat hbare => simp [turn, hat.magic_eq, hat.size_eq, hbare]
  | record hat hversion hmagic hslice =>
    simp [turn, hat.magic_eq, hat.size_eq, hversion, hmagic, hslice]

theorem turn_of_stops (h : Stops magic blob pos) : turn magic blob pos = .ok none := by
  rcases h with hvalue | ⟨size, hat, hversion⟩
  · simp [turn, hvalue]
  · simp [turn, hat.magic_eq, hat.size_eq, hversion]

theorem turn_of_lacksSize (h : LacksSize magic blob pos) :
    turn magic blob pos = .error .noBlockSize := by
  simp [turn, h.left, h.right]

theorem turn_of_overruns (h : Overruns magic blob pos) :
    turn magic blob pos = .error .sliceOutOfRange := by
  rcases h with ⟨size, version, hat, hversion, hmagic, hlong⟩
  have hslice := (slice_eq_none (Nat.le_add_right _ _)).mpr hlong
  simp [turn, hat.magic_eq, hat.size_eq, hversion, hmagic, hslice]

theorem Step.bounds (h : Step magic blob pos next found) : pos < next ∧ next ≤ blob.length := by
  cases h with
  | skip hvalue _ =>
    have hle := le_of_decodeU32 hvalue
    omega
  | bare _ hbare =>
    have hle := le_of_decodeU32 hbare
    omega
  | @record size version bytes _ _ _ hslice =>
    have hle : ¬ blob.length < pos + 8 + size.toNat := by
      intro hlong
      rw [(slice_eq_none (Nat.le_add_right _ _)).mpr hlong] at hslice
      cases hslice
    omega

inductive Reaches (magic : UInt32) (blob : Bytes) :
    Nat -> List (Bytes × UInt32) -> Nat -> Prop where
  | refl (pos : Nat) : Reaches magic blob pos [] pos
  | head {pos next last : Nat} {found slices : List (Bytes × UInt32)} :
      Step magic blob pos next found -> Reaches magic blob next slices last ->
      Reaches magic blob pos (found ++ slices) last

theorem scan_of_step {fuel : Nat} (h : Step magic blob pos next found)
    (acc : List (Bytes × UInt32)) :
    scan magic blob (fuel + 1) pos acc = scan magic blob fuel next (acc ++ found) := by
  have hbounds := h.bounds
  rw [scan, if_pos (by omega), turn_of_step h]
  rfl

theorem scan_of_reaches {fuel : Nat} (h : Reaches magic blob pos slices last)
    (hpos : pos ≤ blob.length) (hfuel : blob.length < pos + fuel) :
    exists fuel', forall acc, scan magic blob fuel pos acc =
        scan magic blob (fuel' + 1) last (acc ++ slices) := by
  induction h generalizing fuel with
  | refl pos =>
    cases fuel with
    | zero => omega
    | succ fuel =>
      refine ⟨fuel, fun acc => ?_⟩
      rw [List.append_nil]
  | @head pos next last found slices hstep _ ih =>
    have hbounds := hstep.bounds
    cases fuel with
    | zero => omega
    | succ fuel =>
      have hfuel' : blob.length < next + fuel := by omega
      rcases ih hbounds.right hfuel' with ⟨fuel', hscan⟩
      refine ⟨fuel', fun acc => ?_⟩
      rw [scan_of_step hstep, hscan, List.append_assoc]

section

variable (h : Reaches magic blob 0 slices last)

include h

theorem exists_scan_eq :
    exists fuel, scan magic blob (blob.length + 1) 0 [] =
      scan magic blob (fuel + 1) last slices := by
  have hfuel : blob.length < 0 + (blob.length + 1) := by omega
  rcases scan_of_reaches h (Nat.zero_le _) hfuel with ⟨fuel, hscan⟩
  exact ⟨fuel, hscan []⟩

theorem scan_of_stops (hstops : Stops magic blob last) :
    scan magic blob (blob.length + 1) 0 [] = .ok slices := by
  rcases exists_scan_eq h with ⟨fuel, hscan⟩
  rw [hscan, scan, turn_of_stops hstops]
  split <;> rfl

theorem scan_of_lacksSize (hlacks : LacksSize magic blob last) :
    scan magic blob (blob.length + 1) 0 [] = .error .noBlockSize := by
  have hle := le_of_decodeU32 hlacks.left
  rcases exists_scan_eq h with ⟨fuel, hscan⟩
  rw [hscan, scan, turn_of_lacksSize hlacks, if_pos (by omega)]
  rfl

theorem scan_of_overruns (hover : Overruns magic blob last) :
    scan magic blob (blob.length + 1) 0 [] = .error .sliceOutOfRange := by
  have hlt : last < blob.length := by
    rcases hover with ⟨size, version, hat, _⟩
    have hle := le_of_decodeU32 hat.magic_eq
    omega
  rcases exists_scan_eq h with ⟨fuel, hscan⟩
  rw [hscan, scan, turn_of_overruns hover, if_pos hlt]
  rfl

end

end Turns

/-!
## The end of the loop
-/

section Any

variable {B : Type} {magic : UInt32} {blob : Bytes} {deserialize : Bytes -> Option B}

def Returns (result : Except ParseError (List (B × UInt32))) : Prop :=
  (exists blocks, result = .ok blocks) ∨ result = .error .noBlockSize

variable {slices : List (Bytes × UInt32)} {last : Nat}

section

variable (h : Reaches magic blob 0 slices last)

include h

theorem parseBlocks_of_stops (hstops : Stops magic blob last) :
    (exists blocks, parseBlocks magic blob deserialize = .ok blocks) <->
      forall found, found ∈ slices -> (deserialize found.1).isSome = true := by
  rw [parseBlocks, scan_of_stops h hstops, ok_bind]
  constructor
  · intro hok found hfound
    rcases hok with ⟨blocks, hmap⟩
    rcases ok_of_mapM hmap hfound with ⟨item, hitem⟩
    rcases bind_eq_ok.mp hitem with ⟨block, hblock, _⟩
    rw [expect_eq_ok.mp hblock]
    rfl
  · intro hall
    refine mapM_ok_of_forall fun found hfound => ?_
    rcases Option.isSome_iff_exists.mp (hall found hfound) with ⟨block, hblock⟩
    exact ⟨(block, found.2), bind_eq_ok.mpr ⟨block, expect_eq_ok.mpr hblock, rfl⟩⟩

theorem returns_iff_of_stops (hstops : Stops magic blob last) :
    Returns (parseBlocks magic blob deserialize) <->
      exists blocks, parseBlocks magic blob deserialize = .ok blocks := by
  constructor
  · intro hreturns
    rcases hreturns with hok | herror
    · exact hok
    · rw [parseBlocks, scan_of_stops h hstops, ok_bind] at herror
      rcases mapM_eq_error herror with ⟨found, _, hfound⟩
      rcases bind_eq_error.mp hfound with hfailed | ⟨block, _, hpure⟩
      · cases (expect_eq_error.mp hfailed).right
      · cases hpure
  · exact fun hok => Or.inl hok

theorem parseBlocks_of_lacksSize (hlacks : LacksSize magic blob last) :
    parseBlocks magic blob deserialize = .error .noBlockSize := by
  rw [parseBlocks, scan_of_lacksSize h hlacks]
  rfl

theorem parseBlocks_of_overruns (hover : Overruns magic blob last) :
    parseBlocks magic blob deserialize = .error .sliceOutOfRange := by
  rw [parseBlocks, scan_of_overruns h hover]
  rfl

end

end Any

/-!
## Files made of records
-/

inductive Piece (B : Type) where
  | filler (bytes : Bytes)
  | bare (size : UInt32)
  | record (block : B)

section Framing

variable {B : Type} (serialize : B -> Bytes) (magic : UInt32)

def Piece.bytes : Piece B -> Bytes
  | .filler bytes => bytes
  | .bare size => u32Little magic ++ u32Little size
  | .record block =>
    u32Little magic ++ (u32Little (serialize block).length.toUInt32 ++ serialize block)

def fileBytes (pieces : List (Piece B)) : Bytes :=
  pieces.flatMap (Piece.bytes serialize magic)

def blocksOf (pieces : List (Piece B)) : List (B × UInt32) :=
  pieces.filterMap fun piece =>
    match piece with
    | .record block => some (block, (serialize block).length.toUInt32)
    | _ => none

def StartsWithRecord : List (Piece B) -> Prop
  | .bare _ :: _ => True
  | .record _ :: _ => True
  | _ => False

/-- No magic starts in a filler, also not with bytes of what follows; a bare record is followed by
a record; no block starts with the magic. -/
def Framed : List (Piece B) -> Prop
  | [] => True
  | .filler bytes :: rest =>
    (forall i, i < bytes.length ->
      decodeU32 (bytes ++ fileBytes serialize magic rest) i ≠ some magic) ∧
    Framed rest
  | .bare _ :: rest => StartsWithRecord rest ∧ Framed rest
  | .record block :: rest =>
    (serialize block).length < 2 ^ 32 ∧
    (exists version, decodeU32 (serialize block) 0 = some version ∧ magic ≠ version) ∧
    Framed rest

/-- As `Framed`, before other bytes.  The version is read even if the block is shorter. -/
def FramedBefore (tail : Bytes) : List (Piece B) -> Prop
  | [] => True
  | .filler bytes :: rest =>
    (forall i, i < bytes.length ->
      decodeU32 (bytes ++ (fileBytes serialize magic rest ++ tail)) i ≠ some magic) ∧
    FramedBefore tail rest
  | .bare _ :: rest =>
    decodeU32 (fileBytes serialize magic rest ++ tail) 0 = some magic ∧ FramedBefore tail rest
  | .record block :: rest =>
    (serialize block).length < 2 ^ 32 ∧
    (exists version,
      decodeU32 (serialize block ++ (fileBytes serialize magic rest ++ tail)) 0 = some version ∧
        magic ≠ version) ∧
    FramedBefore tail rest

end Framing

/-!
## Files of any bytes

A file ends after a piece or within a record: in its length, before the version, or in its
block.
-/

inductive Tail (magic : UInt32) where
  | whole
  | noSize (bytes : Bytes) (short : bytes.length < 4)
  | noVersion (size : UInt32) (bytes : Bytes) (short : bytes.length < 4)
  | cutBlock (size : UInt32) (bytes : Bytes) (short : bytes.length < size.toNat)
      (version : exists version, decodeU32 bytes 0 = some version ∧ magic ≠ version)

namespace Tail

variable {magic : UInt32}

def bytes : Tail magic -> Bytes
  | whole => []
  | noSize bytes _ => u32Little magic ++ bytes
  | noVersion size bytes _ => u32Little magic ++ (u32Little size ++ bytes)
  | cutBlock size bytes _ _ => u32Little magic ++ (u32Little size ++ bytes)

def lacksSize : Tail magic -> Bool
  | noSize _ _ => true
  | _ => false

def cutsBlock : Tail magic -> Bool
  | cutBlock _ _ _ _ => true
  | _ => false

end Tail

structure Splits (magic : UInt32) (blob : Bytes) (pieces : List (Piece Bytes))
    (tail : Tail magic) : Prop where
  blob_eq : blob = fileBytes id magic pieces ++ tail.bytes
  framed : FramedBefore id magic tail.bytes pieces

section Decode

variable {value : UInt32} {bytes : Bytes}

theorem decodeU32_append_add (front rest : Bytes) (k : Nat) :
    decodeU32 (front ++ rest) (front.length + k) = decodeU32 rest k := by
  rw [decodeU32, decodeU32, List.drop_length_add_append]

theorem decodeU32_u32Little (value : UInt32) (rest : Bytes) :
    decodeU32 (u32Little value ++ rest) 0 = some value := by
  have hlt : value.toNat < 256 ^ 4 := value.toNat_lt
  rw [decodeU32, List.drop_zero, u32Little, readField_littleEndian hlt (Nat.zero_le _)]
  simp

theorem decodeU32_append (h : decodeU32 bytes 0 = some value) (rest : Bytes) :
    decodeU32 (bytes ++ rest) 0 = some value := by
  have hle : 4 ≤ bytes.length := by
    have hbound := le_of_decodeU32 h
    omega
  have hle' : 4 ≤ (bytes ++ rest).length := by
    rw [List.length_append]
    omega
  rw [decodeU32, List.drop_zero, readField, if_pos ⟨hle, Nat.zero_le _⟩] at h
  rw [decodeU32, List.drop_zero, readField, if_pos ⟨hle', Nat.zero_le _⟩,
    List.take_append_of_le_length hle]
  exact h

theorem eq_u32Little_append (h : decodeU32 bytes 0 = some value) :
    exists rest, bytes = u32Little value ++ rest := by
  have hle := le_of_decodeU32 h
  rw [Nat.zero_add] at hle
  rw [decodeU32, List.drop_zero, readField, if_pos ⟨hle, Nat.zero_le _⟩] at h
  have hvalue : (readLittleEndian (bytes.take 4)).toUInt32 = value := by simpa using h
  have htake : (bytes.take 4).length = 4 := List.length_take_of_le hle
  have hlt := readLittleEndian_lt (bytes.take 4)
  have hnat : value.toNat = readLittleEndian (bytes.take 4) := by
    rw [<- hvalue, Nat.toUInt32, UInt32.toNat_ofNat']
    rw [htake] at hlt
    exact Nat.mod_eq_of_lt hlt
  have hlittle := littleEndian_readLittleEndian (bytes.take 4)
  rw [htake] at hlittle
  refine ⟨bytes.drop 4, ?_⟩
  rw [u32Little, hnat, hlittle, List.take_append_drop]

theorem sizeAt_append (front : Bytes) (magic size : UInt32) (rest : Bytes) :
    SizeAt magic (front ++ (u32Little magic ++ (u32Little size ++ rest))) front.length size where
  magic_eq := by
    have hdecode := decodeU32_append_add front (u32Little magic ++ (u32Little size ++ rest)) 0
    rw [Nat.add_zero] at hdecode
    rw [hdecode, decodeU32_u32Little]
  size_eq := by
    have hdecode := decodeU32_append_add (u32Little magic) (u32Little size ++ rest) 0
    rw [length_u32Little, Nat.add_zero] at hdecode
    rw [decodeU32_append_add, hdecode, decodeU32_u32Little]

theorem decodeU32_body (front : Bytes) (magic size : UInt32) (rest : Bytes) :
    decodeU32 (front ++ (u32Little magic ++ (u32Little size ++ rest)))
      (front.length + 8) = decodeU32 rest 0 := by
  have hdecode := decodeU32_append_add (u32Little magic ++ u32Little size) rest 0
  rw [List.length_append, length_u32Little, length_u32Little, List.append_assoc] at hdecode
  rw [decodeU32_append_add]
  exact hdecode

theorem SizeAt.eq_append {magic size : UInt32} (h : SizeAt magic bytes 0 size) :
    exists rest, bytes = u32Little magic ++ (u32Little size ++ rest) ∧
      decodeU32 bytes (0 + 8) = decodeU32 rest 0 := by
  rcases eq_u32Little_append h.magic_eq with ⟨rest, hbytes⟩
  have hsize := h.size_eq
  have hdecode := decodeU32_append_add (u32Little magic) rest 0
  rw [length_u32Little] at hdecode
  rw [hbytes, Nat.zero_add, <- Nat.add_zero 4, hdecode] at hsize
  rcases eq_u32Little_append hsize with ⟨rest', hrest⟩
  rw [hrest] at hbytes
  refine ⟨rest', hbytes, ?_⟩
  rw [hbytes]
  exact decodeU32_body [] magic size rest'

theorem slice_append (front bytes rest : Bytes) :
    slice (front ++ (bytes ++ rest)) front.length (front.length + bytes.length) =
      some bytes := by
  rw [slice, if_pos, <- List.append_assoc, <- List.length_append, List.take_left, List.drop_left]
  rw [List.length_append, List.length_append]
  omega

theorem slice_body (front : Bytes) (magic size : UInt32) (bytes rest : Bytes) :
    slice (front ++ (u32Little magic ++ (u32Little size ++ (bytes ++ rest))))
      (front.length + 8) (front.length + 8 + bytes.length) = some bytes := by
  have hfront : (front ++ (u32Little magic ++ u32Little size)).length = front.length + 8 := by
    rw [List.length_append, List.length_append, length_u32Little, length_u32Little]
  have happend : front ++ (u32Little magic ++ (u32Little size ++ (bytes ++ rest))) =
      (front ++ (u32Little magic ++ u32Little size)) ++ (bytes ++ rest) := by
    simp only [List.append_assoc]
  rw [happend, <- hfront, slice_append]

end Decode

section Framed

variable {B : Type} {serialize : B -> Bytes} {magic : UInt32} {pieces : List (Piece B)}

def slicesOf (serialize : B -> Bytes) (pieces : List (Piece B)) : List (Bytes × UInt32) :=
  (blocksOf serialize pieces).map fun (block, size) => (serialize block, size)

theorem decodeU32_startsWithRecord (h : StartsWithRecord pieces) :
    decodeU32 (fileBytes serialize magic pieces) 0 = some magic := by
  match pieces, h with
  | .bare size :: rest, _ =>
    rw [fileBytes, List.flatMap_cons, Piece.bytes, List.append_assoc]
    exact decodeU32_u32Little magic _
  | .record block :: rest, _ =>
    rw [fileBytes, List.flatMap_cons, Piece.bytes, List.append_assoc]
    exact decodeU32_u32Little magic _

theorem blocksOf_eq_nil (h : (fileBytes serialize magic pieces).length < 4) :
    blocksOf serialize pieces = [] := by
  induction pieces with
  | nil => rfl
  | cons piece rest ih =>
    rw [fileBytes, List.flatMap_cons, List.length_append] at h
    have hrest := ih (by rw [fileBytes]; omega)
    cases piece with
    | filler bytes => exact hrest
    | bare size => exact hrest
    | record block =>
      rw [Piece.bytes, List.length_append, length_u32Little] at h
      omega

variable {blob tail : Bytes} {Ends : Nat -> Prop}

theorem reaches_of_filler {slices : List (Bytes × UInt32)} (front bytes rest : Bytes)
    (hblob : blob = front ++ (bytes ++ rest))
    (hfiller : forall i, i < bytes.length -> decodeU32 (bytes ++ rest) i ≠ some magic)
    (hshort : rest.length < 4 ->
      slices = [] ∧ forall last, Stops magic blob last -> Ends last)
    (hrest : exists last,
      Reaches magic blob (front.length + bytes.length) slices last ∧ Ends last) :
    exists last, Reaches magic blob front.length slices last ∧ Ends last := by
  induction bytes generalizing front with
  | nil => exact hrest
  | cons byte bytes ih =>
    have hdecode := decodeU32_append_add front (byte :: bytes ++ rest) 0
    rw [Nat.add_zero, <- hblob] at hdecode
    cases hvalue : decodeU32 (byte :: bytes ++ rest) 0 with
    | none =>
      -- the file ends inside the filler
      rw [hvalue] at hdecode
      have hlt : rest.length < 4 := by
        have hlength := decodeU32_eq_none.mp hvalue
        rw [List.length_append] at hlength
        omega
      rcases hshort hlt with ⟨hnil, hends⟩
      rw [hnil]
      exact ⟨front.length, .refl _, hends _ (Or.inl hdecode)⟩
    | some value =>
      rw [hvalue] at hdecode
      have hmagic : magic ≠ value := by
        intro heq
        rw [<- heq] at hvalue
        exact hfiller 0 (Nat.zero_lt_succ _) hvalue
      have hfiller' : forall i, i < bytes.length -> decodeU32 (bytes ++ rest) i ≠ some magic := by
        intro i hi
        have hshift := decodeU32_append_add [byte] (bytes ++ rest) i
        rw [<- hshift, List.length_singleton, Nat.add_comm]
        exact hfiller (i + 1) (Nat.succ_lt_succ hi)
      have hlength : (front ++ [byte]).length = front.length + 1 := by
        rw [List.length_append, List.length_singleton]
      have hnext : (front ++ [byte]).length + bytes.length =
          front.length + (byte :: bytes).length := by
        rw [hlength, List.length_cons]
        omega
      rw [<- hnext] at hrest
      rcases ih (front ++ [byte]) (by rw [hblob, List.append_assoc]; rfl) hfiller' hrest with
        ⟨last, hreaches, hends⟩
      rw [hlength] at hreaches
      exact ⟨last, .head (.skip hdecode hmagic) hreaches, hends⟩

theorem reaches_of_framed (hframed : FramedBefore serialize magic tail pieces) (front : Bytes)
    (hblob : blob = front ++ (fileBytes serialize magic pieces ++ tail))
    (hshort : tail.length < 4 -> forall last, Stops magic blob last -> Ends last)
    (hends : forall front, blob = front ++ tail -> Ends front.length) :
    exists last, Reaches magic blob front.length (slicesOf serialize pieces) last ∧ Ends last := by
  induction pieces generalizing front with
  | nil => exact ⟨front.length, .refl _, hends front hblob⟩
  | cons piece rest ih =>
    have hcons : fileBytes serialize magic (piece :: rest) =
        piece.bytes serialize magic ++ fileBytes serialize magic rest := by
      rw [fileBytes, List.flatMap_cons, fileBytes]
    rw [hcons, List.append_assoc] at hblob
    cases piece with
    | filler bytes =>
      have hrest := ih hframed.right (front ++ bytes) (by rw [hblob, List.append_assoc]; rfl)
      rw [List.length_append] at hrest
      refine reaches_of_filler front bytes _ hblob hframed.left ?_ hrest
      intro hlt
      rw [List.length_append] at hlt
      have hlt' : (fileBytes serialize magic rest).length < 4 := by omega
      have hnil : slicesOf serialize rest = [] := by
        rw [slicesOf, blocksOf_eq_nil hlt', List.map_nil]
      exact ⟨hnil, hshort (by omega)⟩
    | bare size =>
      rw [Piece.bytes, List.append_assoc] at hblob
      have hfront : (front ++ (u32Little magic ++ u32Little size)).length = front.length + 8 := by
        rw [List.length_append, List.length_append, length_u32Little, length_u32Little]
      rcases ih hframed.right (front ++ (u32Little magic ++ u32Little size))
        (by rw [hblob]; simp only [List.append_assoc]) with ⟨last, hreaches, hlast⟩
      rw [hfront] at hreaches
      have hat : SizeAt magic blob front.length size := by
        rw [hblob]
        exact sizeAt_append front magic size _
      refine ⟨last, .head (.bare hat ?_) hreaches, hlast⟩
      rw [hblob, decodeU32_body]
      exact hframed.left
    | record block =>
      rcases hframed with ⟨hlength, ⟨version, hversion, hmagic⟩, hframed⟩
      have hsize : (serialize block).length.toUInt32.toNat = (serialize block).length := by
        simp only [Nat.toUInt32, UInt32.toNat_ofNat']
        exact Nat.mod_eq_of_lt hlength
      rw [Piece.bytes, List.append_assoc, List.append_assoc] at hblob
      have hfront : (front ++ (u32Little magic ++
          (u32Little (serialize block).length.toUInt32 ++ serialize block))).length =
          front.length + 8 + (serialize block).length.toUInt32.toNat := by
        rw [List.length_append, List.length_append, List.length_append,
          length_u32Little, length_u32Little, hsize]
        omega
      rcases ih hframed (front ++ (u32Little magic ++
        (u32Little (serialize block).length.toUInt32 ++ serialize block)))
        (by rw [hblob]; simp only [List.append_assoc]) with ⟨last, hreaches, hlast⟩
      rw [hfront] at hreaches
      have hat : SizeAt magic blob front.length (serialize block).length.toUInt32 := by
        rw [hblob]
        exact sizeAt_append front magic _ _
      have hbody : decodeU32 blob (front.length + 8) = some version := by
        rw [hblob, decodeU32_body]
        exact hversion
      refine ⟨last, .head (.record hat hbody hmagic ?_) hreaches, hlast⟩
      rw [hblob, hsize]
      exact slice_body front magic _ _ _

theorem Framed.before (h : Framed serialize magic pieces) :
    FramedBefore serialize magic [] pieces := by
  induction pieces with
  | nil => trivial
  | cons piece rest ih =>
    cases piece with
    | filler bytes => exact ⟨by simpa only [List.append_nil] using h.left, ih h.right⟩
    | bare size =>
      exact ⟨by simpa only [List.append_nil] using decodeU32_startsWithRecord h.left, ih h.right⟩
    | record block =>
      rcases h with ⟨hlength, ⟨version, hversion, hmagic⟩, hframed⟩
      exact ⟨hlength, ⟨version, decodeU32_append hversion _, hmagic⟩, ih hframed⟩

theorem stops_of_append_nil (front : Bytes) (h : blob = front ++ []) :
    Stops magic blob front.length := by
  refine Or.inl (decodeU32_eq_none.mpr ?_)
  rw [h, List.append_nil]
  omega

/-- The blocks of the records are found, in order and with their sizes. -/
theorem blk_file_framing (serialize : B -> Bytes) (deserialize : Bytes -> Option B)
    (hinverts : forall block, deserialize (serialize block) = some block)
    (magic : UInt32) (pieces : List (Piece B)) (hframed : Framed serialize magic pieces) :
    parseBlocks magic (fileBytes serialize magic pieces) deserialize =
      .ok (blocksOf serialize pieces) := by
  rcases reaches_of_framed hframed.before [] (List.append_nil _).symm (fun _ _ h => h)
    stops_of_append_nil with ⟨last, hreaches, hstops⟩
  rw [parseBlocks, scan_of_stops hreaches hstops, ok_bind, slicesOf, mapM_eq_ok,
    List.forall₂_map_left_iff, List.forall₂_same]
  intro found _
  exact bind_eq_ok.mpr ⟨found.1, expect_eq_ok.mpr (hinverts found.1), rfl⟩

theorem bare_records_skipped :
    Framed id 7 [.filler [1, 7], .bare 9, .bare 5, .record [1, 0, 0, 0, 7, 0, 0, 0],
      .filler [7, 0]] ∧
    parseBlocks 7 (fileBytes id 7 [.filler [1, 7], .bare 9, .bare 5,
      .record [1, 0, 0, 0, 7, 0, 0, 0], .filler [7, 0]]) some =
        .ok [([1, 0, 0, 0, 7, 0, 0, 0], 8)] := by
  have hframed : Framed id 7 [.filler [1, 7], .bare 9, .bare 5,
      .record [1, 0, 0, 0, 7, 0, 0, 0], .filler [7, 0]] :=
    ⟨by decide, trivial, trivial, by decide, ⟨1, by decide, by decide⟩, by decide, trivial⟩
  exact ⟨hframed, blk_file_framing id some (fun _ => rfl) 7 _ hframed⟩

end Framed

section Split

variable {B : Type} {magic : UInt32} {blob : Bytes} {pieces : List (Piece Bytes)}

theorem four_le_length_tail {tail : Tail magic} (h : tail ≠ .whole) : 4 ≤ tail.bytes.length := by
  cases tail with
  | whole => exact absurd rfl h
  | noSize bytes _ =>
    rw [Tail.bytes, List.length_append, length_u32Little]
    omega
  | noVersion size bytes _ =>
    rw [Tail.bytes, List.length_append, length_u32Little]
    omega
  | cutBlock size bytes _ _ =>
    rw [Tail.bytes, List.length_append, length_u32Little]
    omega

def Tail.Ends (blob : Bytes) (pos : Nat) : Tail magic -> Prop
  | .whole => Stops magic blob pos
  | .noSize _ _ => LacksSize magic blob pos
  | .noVersion _ _ _ => Stops magic blob pos
  | .cutBlock _ _ _ _ => Overruns magic blob pos

theorem Tail.ends (tail : Tail magic) (front : Bytes) (h : blob = front ++ tail.bytes) :
    tail.Ends blob front.length := by
  cases tail with
  | whole => exact stops_of_append_nil front h
  | noSize bytes hshort =>
    rw [Tail.bytes] at h
    have hdecode := decodeU32_append_add front (u32Little magic ++ bytes) 0
    rw [decodeU32_u32Little, Nat.add_zero, <- h] at hdecode
    refine ⟨hdecode, decodeU32_eq_none.mpr ?_⟩
    rw [h, List.length_append, List.length_append, length_u32Little]
    omega
  | noVersion size bytes hshort =>
    rw [Tail.bytes] at h
    refine Or.inr ⟨size, ?_, ?_⟩
    · rw [h]
      exact sizeAt_append front magic size bytes
    · rw [h, decodeU32_body, decodeU32_eq_none]
      omega
  | cutBlock size bytes hshort hversion =>
    rw [Tail.bytes] at h
    rcases hversion with ⟨version, hversion, hmagic⟩
    refine ⟨size, version, ?_, ?_, hmagic, ?_⟩
    · rw [h]
      exact sizeAt_append front magic size bytes
    · rw [h, decodeU32_body]
      exact hversion
    · rw [h, List.length_append, List.length_append, List.length_append, length_u32Little,
        length_u32Little]
      omega

theorem Splits.reaches {tail : Tail magic} (h : Splits magic blob pieces tail) :
    exists last, Reaches magic blob 0 (slicesOf id pieces) last ∧ tail.Ends blob last := by
  refine reaches_of_framed h.framed [] h.blob_eq ?_ tail.ends
  intro hlt last hstops
  by_cases hwhole : tail = .whole
  · rw [hwhole]
    exact hstops
  · have hle := four_le_length_tail hwhole
    omega

theorem Splits.cons {piece : Piece Bytes} {tail : Tail magic} {rest : Bytes}
    (h : Splits magic rest pieces tail) (hblob : blob = piece.bytes id magic ++ rest)
    (hframed : FramedBefore id magic tail.bytes pieces ->
      FramedBefore id magic tail.bytes (piece :: pieces)) :
    Splits magic blob (piece :: pieces) tail where
  blob_eq := by
    rw [hblob, h.blob_eq, fileBytes, fileBytes, List.flatMap_cons, List.append_assoc]
  framed := hframed h.framed

theorem exists_splits (magic : UInt32) (blob : Bytes) :
    exists pieces tail, Splits magic blob pieces tail := by
  induction hlength : blob.length using Nat.strong_induction_on generalizing blob with
  | _ n ih =>
    have htail : forall (tail : Tail magic), blob = tail.bytes ->
        exists pieces tail, Splits magic blob pieces tail :=
      fun tail hblob => ⟨[], tail, hblob, trivial⟩
    rcases turn_cases magic blob 0 with hstops | hlacks | hover | ⟨next, found, hstep⟩
    · rcases hstops with hnone | ⟨size, hat, hnone⟩
      · have hshort := decodeU32_eq_none.mp hnone
        refine ⟨[.filler blob], .whole, ?_, ?_, trivial⟩
        · simp [fileBytes, Piece.bytes, Tail.bytes]
        · intro i _ hmagic
          have hle := le_of_decodeU32 hmagic
          simp [fileBytes, Tail.bytes] at hle
          omega
      · rcases hat.eq_append with ⟨rest, hblob, hbody⟩
        have hshort := decodeU32_eq_none.mp (hbody.symm.trans hnone)
        exact htail (.noVersion size rest (by omega)) hblob
    · rcases eq_u32Little_append hlacks.left with ⟨rest, hblob⟩
      have hshort := decodeU32_eq_none.mp hlacks.right
      rw [hblob, List.length_append, length_u32Little] at hshort
      exact htail (.noSize rest (by omega)) hblob
    · rcases hover with ⟨size, version, hat, hversion, hmagic, hlong⟩
      rcases hat.eq_append with ⟨rest, hblob, hbody⟩
      rw [hbody] at hversion
      rw [hblob, List.length_append, List.length_append, length_u32Little,
        length_u32Little] at hlong
      exact htail (.cutBlock size rest (by omega) ⟨version, hversion, hmagic⟩) hblob
    · cases hstep with
      | @skip value hvalue hmagic =>
        cases blob with
        | nil => cases hvalue
        | cons byte rest =>
          rcases ih rest.length (by rw [<- hlength]; simp) rest rfl with ⟨pieces, tail, hrest⟩
          refine ⟨.filler [byte] :: pieces, tail, hrest.cons rfl fun hframed => ⟨?_, hframed⟩⟩
          intro i hi heq
          have hzero : i = 0 := by simpa using hi
          rw [hzero, <- hrest.blob_eq, List.singleton_append, hvalue] at heq
          exact hmagic (Option.some.inj heq).symm
      | @bare size hat hbare =>
        rcases hat.eq_append with ⟨rest, hblob, hbody⟩
        rcases ih rest.length (by rw [<- hlength, hblob]; simp; omega) rest rfl with
          ⟨pieces, tail, hrest⟩
        refine ⟨.bare size :: pieces, tail, hrest.cons ?_ fun hframed => ⟨?_, hframed⟩⟩
        · rw [hblob, Piece.bytes, List.append_assoc]
        · rw [<- hrest.blob_eq]
          exact hbody.symm.trans hbare
      | @record size version bytes hat hversion hmagic hslice =>
        rcases hat.eq_append with ⟨body, hblob, hbody⟩
        have hle : size.toNat ≤ body.length := by
          by_contra hlt
          have hlong : blob.length < 0 + 8 + size.toNat := by
            rw [hblob]
            simp
            omega
          rw [(slice_eq_none (Nat.le_add_right _ _)).mpr hlong] at hslice
          cases hslice
        have hsize : (body.take size.toNat).length = size.toNat := List.length_take_of_le hle
        rcases ih (body.drop size.toNat).length (by rw [<- hlength, hblob]; simp; omega) _ rfl with
          ⟨pieces, tail, hrest⟩
        refine ⟨.record (body.take size.toNat) :: pieces, tail,
          hrest.cons ?_ fun hframed => ⟨?_, ⟨version, ?_, hmagic⟩, hframed⟩⟩
        · rw [hblob, Piece.bytes, id, hsize, List.append_assoc, List.append_assoc,
            List.take_append_drop]
          simp
        · rw [id, hsize]
          exact size.toNat_lt
        · rw [<- hrest.blob_eq, id, List.take_append_drop]
          exact hbody.symm.trans hversion

theorem mem_slicesOf {found : Bytes × UInt32} (h : found ∈ slicesOf id pieces) :
    Piece.record found.1 ∈ pieces := by
  rcases List.mem_map.mp h with ⟨block, hblock, hfound⟩
  rcases List.mem_filterMap.mp hblock with ⟨piece, hpiece, hsome⟩
  cases piece with
  | filler bytes => cases hsome
  | bare size => cases hsome
  | record bytes =>
    cases hsome
    rw [<- hfound]
    exact hpiece

theorem slice_of_record {bytes : Bytes} (h : Piece.record bytes ∈ pieces) :
    (bytes, bytes.length.toUInt32) ∈ slicesOf id pieces := by
  refine List.mem_map.mpr ⟨(bytes, bytes.length.toUInt32), ?_, rfl⟩
  exact List.mem_filterMap.mpr ⟨.record bytes, h, rfl⟩

/-- Every file is pieces and a tail.  It is parsed without a panic exactly if the tail is not cut
within a block, and all records decode unless the tail is cut within a length, for which an error
comes first. -/
theorem parse_blocks_returns_iff (magic : UInt32) (blob : Bytes) (deserialize : Bytes -> Option B) :
    (exists pieces tail, Splits magic blob pieces tail) ∧
    forall pieces tail, Splits magic blob pieces tail ->
      (Returns (parseBlocks magic blob deserialize) <->
        tail.cutsBlock = false ∧
        (tail.lacksSize = false ->
          forall bytes, Piece.record bytes ∈ pieces -> (deserialize bytes).isSome = true)) := by
  refine ⟨exists_splits magic blob, fun pieces tail h => ?_⟩
  rcases h.reaches with ⟨last, hreaches, hends⟩
  have hstopped : Stops magic blob last -> (Returns (parseBlocks magic blob deserialize) <->
      forall bytes, Piece.record bytes ∈ pieces -> (deserialize bytes).isSome = true) := by
    intro hstops
    rw [returns_iff_of_stops hreaches hstops, parseBlocks_of_stops hreaches hstops]
    constructor
    · exact fun hall bytes hbytes => hall _ (slice_of_record hbytes)
    · exact fun hall found hfound => hall _ (mem_slicesOf hfound)
  cases tail with
  | whole => simpa [Tail.cutsBlock, Tail.lacksSize] using hstopped hends
  | noVersion size bytes hshort => simpa [Tail.cutsBlock, Tail.lacksSize] using hstopped hends
  | noSize bytes hshort =>
    have hreturns : Returns (parseBlocks magic blob deserialize) :=
      Or.inr (parseBlocks_of_lacksSize hreaches hends)
    simpa [Tail.cutsBlock, Tail.lacksSize] using hreturns
  | cutBlock size bytes hshort hversion =>
    have herror : parseBlocks magic blob deserialize = .error .sliceOutOfRange :=
      parseBlocks_of_overruns hreaches hends
    simp [Tail.cutsBlock, Returns, herror]

/-- A record that declares a hundred bytes, cut off after the version of its block. -/
theorem cut_record_panics :
    ¬ Returns (parseBlocks 7 [7, 0, 0, 0, 100, 0, 0, 0, 1, 0, 0, 0] some) := by
  have hpanic : parseBlocks 7 [7, 0, 0, 0, 100, 0, 0, 0, 1, 0, 0, 0] some =
      .error .sliceOutOfRange := by decide
  rw [hpanic]
  intro hreturns
  rcases hreturns with ⟨blocks, hok⟩ | herror
  · cases hok
  · cases herror

end Split

end BlkFile
end NewIndex
end Splora
