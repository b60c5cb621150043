import OptimisticStore.Error
import OptimisticStore.KeyRange
import OptimisticStore.Record

/-! How a versioned store lies in raw rows. The leading byte of a raw key names its region:

* 1, data: the key with every zero byte followed by 255, then 0 and 1, then the complement of
  the version in a cell of eight bytes and a deletion mark, to the value;
* 2, counters: `v` to the last committed version and `t` to the last transaction number;
* 3, log: a version and the place of a write in it, to the key written;
* 4, ledger: a registration, to its last heartbeat in milliseconds.

No row of one key lies between rows of another, and of the rows of one key the newest comes
first. Versions and transaction numbers are words of 64 bits. -/

namespace OptimisticStore.Layout

def wordBound : Nat := Bytes.capacity 8

/-- How many writes of one version the log has places for. -/
def placeBound : Nat := Bytes.capacity 4

def cell (n : Nat) : Bytes := Bytes.ofNat 8 n

def readCell (b : Bytes) : Except RowDefect Nat :=
  if b.length = 8 then .ok b.toNat else .error (.cellLength b.length)

@[simp] theorem length_cell (n : Nat) : (cell n).length = 8 := Bytes.length_ofNat ..

theorem readCell_cell {n : Nat} (h : n < wordBound) : readCell (cell n) = .ok n := by
  rw [readCell, if_pos (length_cell n), cell, Bytes.toNat_ofNat_of_lt h]

theorem eq_cell_of_readCell {b : Bytes} {n : Nat} (h : readCell b = .ok n) :
    n < wordBound ∧ b = cell n := by
  unfold readCell at h
  split at h
  · next len =>
    cases h
    have lt := Bytes.toNat_lt b
    have back := Bytes.ofNat_toNat b
    rw [len] at lt back
    exact ⟨lt, back.symm⟩
  · cases h

/-- Order on words turned round. -/
def complement (version : Version) : Nat := wordBound - 1 - version % wordBound

theorem complement_lt (version : Version) : complement version < wordBound := by
  have pos : 0 < wordBound := Bytes.capacity_pos 8
  rw [complement]
  omega

theorem complement_complement {version : Version} (h : version < wordBound) :
    complement (complement version) = version := by
  rw [complement, Nat.mod_eq_of_lt (complement_lt version), complement, Nat.mod_eq_of_lt h]
  exact Nat.sub_sub_self (Nat.le_pred_of_lt h)

/-! ### Data -/

def escape : Bytes → Bytes
  | [] => []
  | x :: key => if x = 0 then 0 :: 255 :: escape key else x :: escape key

/-- What all rows of a key have in front. -/
def dataStem (key : Bytes) : Bytes := 1 :: escape key ++ [0, 1]

def dataKey (key : Bytes) (version : Version) (deleted : Bool) : Bytes :=
  dataStem key ++ cell (complement version) ++ [if deleted then 1 else 0]

/-- Not above any row of the key whose version is at most `version`. -/
def seekKey (key : Bytes) (version : Version) : Bytes :=
  dataStem key ++ cell (complement version)

/-- Above every row of the key and below those of any greater one. -/
def dataKeyEnd (key : Bytes) : Bytes := dataStem key ++ List.replicate 9 255

/-- The key before the first 0 and 1, and what comes after them. -/
def unescape : Bytes → Except RowDefect (Bytes × Bytes)
  | [] => .error .unterminated
  | [_] => .error .unterminated
  | x :: y :: rest =>
    if x = 0 then
      if y = 255 then (unescape rest).map fun (key, suffix) => (0 :: key, suffix)
      else if y = 1 then .ok ([], rest)
      else .error .badEscape
    else (unescape (y :: rest)).map fun (key, suffix) => (x :: key, suffix)

theorem unescape_escape (key rest : Bytes) :
    unescape (escape key ++ 0 :: 1 :: rest) = .ok (key, rest) := by
  induction key with
  | nil => simp [escape, unescape]
  | cons x key ih =>
    rw [escape]
    split
    · next zero => simp [unescape, ih, zero, Except.map]
    · next nonzero =>
      rcases hk : escape key ++ 0 :: 1 :: rest with _ | ⟨y, more⟩
      · simp at hk
      · rw [hk] at ih
        simp [hk, unescape, nonzero, ih, Except.map]

/-- A key has no other written form. -/
theorem eq_of_unescape {raw key rest : Bytes} (h : unescape raw = .ok (key, rest)) :
    raw = escape key ++ 0 :: 1 :: rest := by
  fun_induction unescape raw generalizing key rest with
  | case1 => cases h
  | case2 => cases h
  | case3 more ih =>
    rcases hm : unescape more with _ | ⟨k, r⟩ <;> simp only [hm, Except.map, reduceCtorEq] at h
    cases h
    simp [escape, ih hm]
  | case4 => cases h; rfl
  | case5 => cases h
  | case6 x y more nonzero ih =>
    rcases hm : unescape (y :: more) with _ | ⟨k, r⟩ <;>
      simp only [hm, Except.map, reduceCtorEq] at h
    cases h
    simp [escape, nonzero, ih hm]

def readDataKey (raw : Bytes) : Except RowDefect (Bytes × Version × Bool) :=
  match raw with
  | 1 :: rest => do
    let (key, suffix) ← unescape rest
    if suffix.length ≠ 9 then throw (.suffixLength suffix.length)
    let version := complement (Bytes.toNat (suffix.take 8))
    match suffix.drop 8 with
    | [0] => return (key, version, false)
    | [1] => return (key, version, true)
    | [mark] => throw (.deletedFlag mark)
    | _ => throw (.suffixLength suffix.length)
  | _ => .error .notData

def readDataRow (row : Bytes × Bytes) : Except RowDefect (Bytes × Record Bytes) := do
  let (key, version, deleted) ← readDataKey row.1
  return (key, .ofParts version deleted row.2)

/-- The raw ends around the rows of the keys in a range. -/
def dataRange (r : KeyRange) : Cut Bytes × Cut Bytes :=
  (match r.lower.cut with
    | .unbounded => .included [1]
    | .included key => .included (dataStem key)
    | .excluded key => .excluded (dataKeyEnd key),
   match r.upper.cut with
    | .unbounded => .excluded [2]
    | .included key => .included (dataKeyEnd key)
    | .excluded key => .excluded (dataStem key))

/-! ### Counters -/

def versionKey : Bytes := [2, 118]

def txnIdKey : Bytes := [2, 116]

/-! ### Log -/

def logKey (version : Version) (place : Nat) : Bytes :=
  3 :: Bytes.ofNat 8 version ++ Bytes.ofNat 4 place

def readLogVersion (raw : Bytes) : Except RowDefect Version :=
  match raw with
  | 3 :: rest => if rest.length = 12 then .ok (Bytes.toNat (rest.take 8)) else .error .notLog
  | _ => .error .notLog

/-- The raw ends around the log rows of versions above `after` and, if given, up to `upto`. -/
def logRange (after : Version) (upto : Option Version) : Cut Bytes × Cut Bytes :=
  (.included (logKey (min (after + 1) (wordBound - 1)) 0),
   match upto with
    | some version => .included (logKey version (placeBound - 1))
    | none => .excluded [4])

/-! ### Ledger -/

def ledgerKey (r : Registration) : Bytes := 4 :: cell r.readVersion ++ cell r.txnId

def readLedgerKey (raw : Bytes) : Except RowDefect Registration :=
  match raw with
  | 4 :: rest =>
    if rest.length = 16 then .ok ⟨Bytes.toNat (rest.take 8), Bytes.toNat (rest.drop 8)⟩
    else .error .notLedger
  | _ => .error .notLedger

def ledgerRange : Cut Bytes × Cut Bytes := (.included [4], .excluded [5])

end OptimisticStore.Layout
