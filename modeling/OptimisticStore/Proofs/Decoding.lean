import OptimisticStore.Durable.Cursor
import OptimisticStore.Proofs.Layout

/-! Which byte strings are data keys. A written data key is read back as it was, and whatever
else is read is refused for one of few defects of form. Reading place by place, where a place
that does not exist cannot be read, comes to the same: every place asked for is there. -/

namespace OptimisticStore

def Bytes.slice? (b : Bytes) (i j : Nat) : Option Bytes :=
  if i ≤ j ∧ j ≤ b.length then some ((b.take j).drop i) else none

theorem Bytes.slice?_append (done middle rest : Bytes) :
    slice? (done ++ (middle ++ rest)) done.length (done.length + middle.length) = some middle := by
  have within : done.length ≤ done.length + middle.length ∧
      done.length + middle.length ≤ (done ++ (middle ++ rest)).length := by
    simp
  rw [slice?, if_pos within]
  simp [List.take_append]

theorem Bytes.slice?_pair (done : Bytes) (x y : UInt8) (rest : Bytes) :
    slice? (done ++ x :: y :: rest) done.length (done.length + 2) = some [x, y] :=
  slice?_append done [x, y] rest

theorem Bytes.le_length_of_slice? {b s : Bytes} {i j : Nat} (found : slice? b i j = some s) :
    j ≤ b.length := by
  unfold slice? at found
  split at found
  · next within => exact within.2
  · cases found

theorem Bytes.slice?_eq_none {b : Bytes} {i j : Nat} (beyond : b.length < j) :
    slice? b i j = none := by
  rw [slice?, if_neg]
  omega

namespace Layout

/-! ### The key -/

theorem unescape_cons {x : UInt8} (nonzero : x ≠ 0) (rest : Bytes) :
    unescape (x :: rest) = (unescape rest).map fun (key, suffix) => (x :: key, suffix) := by
  cases rest with
  | nil => simp [unescape, Except.map]
  | cons y rest => simp [unescape, nonzero]

theorem unescape_escape_append (key tail : Bytes) :
    unescape (escape key ++ tail) =
      (unescape tail).map fun (more, suffix) => (key ++ more, suffix) := by
  induction key with
  | nil =>
    simp only [escape, List.nil_append]
    cases unescape tail <;> rfl
  | cons x key ih =>
    by_cases zero : x = 0
    · simp only [escape, zero, if_pos, List.cons_append, unescape, ih]
      cases unescape tail <;> rfl
    · simp only [escape, zero, if_false, List.cons_append, unescape_cons zero, ih]
      cases unescape tail <;> rfl

theorem error_of_map {α β : Type} {f : α → β} {x : Except RowDefect α} {defect : RowDefect}
    (refused : x.map f = .error defect) : x = .error defect := by
  cases x with
  | error e => exact congrArg _ (Except.error.inj refused)
  | ok a => cases refused

/-- A key is refused at the first zero byte that has neither form, because it is the last byte
or because what follows it is neither 255 nor 1, or else where the bytes run out. -/
inductive Unescapable : Bytes → RowDefect → Prop
  | endless (key : Bytes) : Unescapable (escape key) .unterminated
  | dangling (key : Bytes) : Unescapable (escape key ++ [0]) .unterminated
  | malformed (key : Bytes) {y : UInt8} (rest : Bytes) (notByte : y ≠ 255) (notEnd : y ≠ 1) :
    Unescapable (escape key ++ 0 :: y :: rest) .badEscape

theorem Unescapable.cons (x : UInt8) {raw : Bytes} {defect : RowDefect}
    (h : Unescapable raw defect) : Unescapable (escape [x] ++ raw) defect := by
  have joined (key : Bytes) : escape [x] ++ escape key = escape (x :: key) := by
    by_cases zero : x = 0 <;> simp [escape, zero]
  cases h with
  | endless key =>
    rw [joined]
    exact .endless (x :: key)
  | dangling key =>
    rw [← List.append_assoc, joined]
    exact .dangling (x :: key)
  | malformed key rest notByte notEnd =>
    rw [← List.append_assoc, joined]
    exact .malformed (x :: key) rest notByte notEnd

theorem unescape_eq_error_iff (raw : Bytes) (defect : RowDefect) :
    unescape raw = .error defect ↔ Unescapable raw defect := by
  constructor
  · intro refused
    fun_induction unescape raw with
    | case1 => cases refused; exact .endless []
    | case2 x =>
      cases refused
      by_cases zero : x = 0
      · exact zero ▸ .dangling []
      · simpa [escape, zero] using Unescapable.endless [x]
    | case3 rest ih => exact (ih (error_of_map refused)).cons 0
    | case4 => cases refused
    | case5 y rest notByte notEnd => cases refused; exact .malformed [] rest notByte notEnd
    | case6 x y rest nonzero ih =>
      simpa [escape, nonzero] using (ih (error_of_map refused)).cons x
  · intro h
    cases h with
    | endless key => simpa [unescape, Except.map] using unescape_escape_append key []
    | dangling key => simpa [unescape, Except.map] using unescape_escape_append key [0]
    | malformed key rest notByte notEnd =>
      simp [unescape_escape_append, unescape, Except.map, notByte, notEnd]

/-! ### The row -/

theorem dataStem_append (key suffix : Bytes) :
    dataStem key ++ suffix = 1 :: (escape key ++ 0 :: 1 :: suffix) := by
  simp [dataStem]

/-- What a byte string can be to the reader of data keys. -/
inductive Form : Bytes → Prop
  | elsewhere {raw : Bytes} (other : region raw ≠ some 1) : Form raw
  | noKey {rest : Bytes} {defect : RowDefect} (refused : Unescapable rest defect) :
    Form (1 :: rest)
  | oddSuffix (key : Bytes) {suffix : Bytes} (width : suffix.length ≠ 9) :
    Form (dataStem key ++ suffix)
  | row (key : Bytes) {number : Bytes} (width : number.length = 8) (mark : UInt8) :
    Form (dataStem key ++ (number ++ [mark]))

theorem form (raw : Bytes) : Form raw := by
  by_cases data : region raw = some 1
  case neg => exact .elsewhere data
  obtain ⟨rest, rfl⟩ : ∃ rest, raw = 1 :: rest := by
    cases raw with
    | nil => simp [region] at data
    | cons x rest =>
      simp only [region, List.head?_cons, Option.some.injEq] at data
      exact ⟨rest, by rw [data]⟩
  rcases parts : unescape rest with defect | ⟨key, suffix⟩
  · exact .noKey ((unescape_eq_error_iff rest defect).1 parts)
  · have stem : 1 :: rest = dataStem key ++ suffix := by
      rw [eq_of_unescape parts, dataStem_append]
    rw [stem]
    by_cases width : suffix.length = 9
    · have front : (suffix.take 8).length = 8 := by rw [List.length_take]; omega
      have back : (suffix.drop 8).length = 1 := by rw [List.length_drop]; omega
      obtain ⟨mark, last⟩ := List.length_eq_one_iff.1 back
      rw [← List.take_append_drop 8 suffix, last]
      exact .row key front mark
    · exact .oddSuffix key width

theorem readDataKey_elsewhere {raw : Bytes} (other : region raw ≠ some 1) :
    readDataKey raw = .error .notData := by
  unfold readDataKey
  split
  · next rest => exact absurd (by rfl) other
  · rfl

theorem readDataKey_noKey {rest : Bytes} {defect : RowDefect}
    (refused : Unescapable rest defect) : readDataKey (1 :: rest) = .error defect := by
  rw [readDataKey, (unescape_eq_error_iff rest defect).2 refused]
  rfl

theorem readDataKey_oddSuffix (key : Bytes) {suffix : Bytes} (width : suffix.length ≠ 9) :
    readDataKey (dataStem key ++ suffix) = .error (.suffixLength suffix.length) := by
  rw [dataStem_append, readDataKey, unescape_escape]
  simp [bind, Except.bind, width, throw, throwThe, MonadExceptOf.throw]

theorem readDataKey_row (key : Bytes) {number : Bytes} (width : number.length = 8)
    (mark : UInt8) :
    readDataKey (dataStem key ++ (number ++ [mark])) =
      if mark = 0 then .ok (key, complement number.toNat, false)
      else if mark = 1 then .ok (key, complement number.toNat, true)
      else .error (.deletedFlag mark) := by
  have front : (number ++ [mark]).take 8 = number := by rw [← width, List.take_left]
  have back : (number ++ [mark]).drop 8 = [mark] := by rw [← width, List.drop_left]
  have nine : (number ++ [mark]).length = 9 := by simp [width]
  rw [dataStem_append, readDataKey, unescape_escape]
  simp only [bind, Except.bind, front, back, nine, ne_eq, not_true_eq_false, if_false]
  split
  · next same => cases same; rfl
  · next same => cases same; rfl
  · next other notZero notOne same =>
    cases same
    have zero : mark ≠ 0 := fun eq => notZero (by rw [eq])
    have one : mark ≠ 1 := fun eq => notOne (by rw [eq])
    rw [if_neg zero, if_neg one]
    rfl
  · next other => exact absurd rfl (other mark)

inductive Defective : Bytes → RowDefect → Prop
  | elsewhere {raw : Bytes} (other : region raw ≠ some 1) : Defective raw .notData
  | key {rest : Bytes} {defect : RowDefect} (refused : Unescapable rest defect) :
    Defective (1 :: rest) defect
  | suffix (key : Bytes) {suffix : Bytes} (width : suffix.length ≠ 9) :
    Defective (dataStem key ++ suffix) (.suffixLength suffix.length)
  | mark (key : Bytes) {number : Bytes} (width : number.length = 8) {mark : UInt8}
      (notKept : mark ≠ 0) (notDeleted : mark ≠ 1) :
    Defective (dataStem key ++ (number ++ [mark])) (.deletedFlag mark)

theorem readDataKey_eq_error_iff (raw : Bytes) (defect : RowDefect) :
    readDataKey raw = .error defect ↔ Defective raw defect := by
  constructor
  · intro refused
    cases form raw with
    | elsewhere other =>
      rw [readDataKey_elsewhere other] at refused
      cases refused
      exact .elsewhere other
    | noKey unreadable =>
      rw [readDataKey_noKey unreadable] at refused
      cases refused
      exact .key unreadable
    | oddSuffix key width =>
      rw [readDataKey_oddSuffix key width] at refused
      cases refused
      exact .suffix key width
    | row key width mark =>
      rw [readDataKey_row key width] at refused
      split at refused
      · cases refused
      · next notKept =>
        split at refused
        · cases refused
        · next notDeleted =>
          cases refused
          exact .mark key width notKept notDeleted
  · intro h
    cases h with
    | elsewhere other => exact readDataKey_elsewhere other
    | key refused => exact readDataKey_noKey refused
    | suffix key width => exact readDataKey_oddSuffix key width
    | mark key width notKept notDeleted =>
      rw [readDataKey_row key width, if_neg notKept, if_neg notDeleted]

/-- A zero byte at the very end is no end of a key. -/
example : readDataKey [1, 97, 0] = .error .unterminated := by rfl

theorem readDataKey_eq_ok_iff (raw key : Bytes) (v : Nat) (deleted : Bool) :
    readDataKey raw = .ok (key, v, deleted) ↔ v < wordBound ∧ raw = dataKey key v deleted := by
  constructor
  · exact eq_dataKey_of_readDataKey
  · rintro ⟨small, rfl⟩
    exact readDataKey_dataKey key small deleted

/-! ### Reading by place -/

/-- Takes up the bytes of a key from place `i` on, two at a time where there are two, and gives
the key with the place behind its end. -/
def scanKey (b key : Bytes) (i : Nat) : Except RowDefect (Bytes × Nat) :=
  match two : b.slice? i (i + 2) with
  | some [0, 255] => scanKey b (key ++ [0]) (i + 2)
  | some [0, 1] => .ok (key, i + 2)
  | some [0, _] => .error .badEscape
  | _ =>
    match one : b[i]? with
    | some x => scanKey b (key ++ [x]) (i + 1)
    | none => .error .unterminated
termination_by b.length - i
decreasing_by
  · have within := Bytes.le_length_of_slice? two
    omega
  · have within := (List.getElem?_eq_some_iff.1 one).1
    omega

section
variable {b key : Bytes} {i : Nat}

theorem scanKey_zero (two : b.slice? i (i + 2) = some [0, 255]) :
    scanKey b key i = scanKey b (key ++ [0]) (i + 2) := by
  rw [scanKey]
  split <;> simp_all

theorem scanKey_end (two : b.slice? i (i + 2) = some [0, 1]) :
    scanKey b key i = .ok (key, i + 2) := by
  rw [scanKey]
  split <;> simp_all

theorem scanKey_malformed {y : UInt8} (two : b.slice? i (i + 2) = some [0, y])
    (notByte : y ≠ 255) (notEnd : y ≠ 1) : scanKey b key i = .error .badEscape := by
  rw [scanKey]
  split <;> simp_all

theorem scanKey_byte {x : UInt8} (noZero : ∀ y, b.slice? i (i + 2) ≠ some [0, y])
    (one : b[i]? = some x) : scanKey b key i = scanKey b (key ++ [x]) (i + 1) := by
  rw [scanKey]
  split <;> simp_all
  split <;> simp_all

theorem scanKey_endless (beyond : b.length ≤ i) : scanKey b key i = .error .unterminated := by
  have two : b.slice? i (i + 2) = none := Bytes.slice?_eq_none (by omega)
  have one : b[i]? = none := List.getElem?_eq_none beyond
  rw [scanKey]
  split <;> simp_all
  split <;> simp_all

end

theorem scanKey_append (done key rest : Bytes) :
    scanKey (done ++ rest) key done.length =
      (unescape rest).map fun (more, suffix) =>
        (key ++ more, (done ++ rest).length - suffix.length) := by
  -- what has been taken up stays in front, so that places are lengths of it
  fun_induction unescape rest generalizing done key with
  | case1 => simpa [Except.map] using scanKey_endless (by simp)
  | case2 x =>
    have alone : Bytes.slice? (done ++ [x]) done.length (done.length + 2) = none :=
      Bytes.slice?_eq_none (by simp)
    have one : (done ++ [x])[done.length]? = some x := by simp
    rw [scanKey_byte (by simp [alone]) one, scanKey_endless (by simp)]
    rfl
  | case3 rest ih =>
    have two := Bytes.slice?_pair done 0 255 rest
    have further := ih (done ++ [0, 255]) (key ++ [0])
    simp only [List.length_append, List.append_assoc, List.cons_append, List.nil_append] at further
    rw [scanKey_zero two]
    refine further.trans ?_
    cases unescape rest <;> simp [Except.map]
  | case4 rest =>
    have two := Bytes.slice?_pair done 0 1 rest
    have place : done.length + 2 = (done ++ 0 :: 1 :: rest).length - rest.length := by
      simp only [List.length_append, List.length_cons]
      omega
    rw [scanKey_end two, place]
    simp [Except.map]
  | case5 y rest notByte notEnd =>
    have two := Bytes.slice?_pair done 0 y rest
    rw [scanKey_malformed two notByte notEnd]
    rfl
  | case6 x y rest nonzero ih =>
    have two := Bytes.slice?_pair done x y rest
    have noZero (z : UInt8) :
        Bytes.slice? (done ++ x :: y :: rest) done.length (done.length + 2) ≠ some [0, z] := by
      intro zero
      have same := Option.some.inj (two.symm.trans zero)
      simp [nonzero] at same
    have one : (done ++ x :: y :: rest)[done.length]? = some x := by simp
    have further := ih (done ++ [x]) (key ++ [x])
    simp only [List.length_append, List.append_assoc, List.cons_append, List.nil_append] at further
    rw [scanKey_byte noZero one]
    refine further.trans ?_
    cases unescape (y :: rest) <;> simp [Except.map]

section
variable {α : Type} (a : α)

@[simp] theorem lift_some : (liftM (some a) : ExceptT RowDefect Option α) = pure a := rfl

@[simp] theorem lift_ok :
    (liftM (.ok a : Except RowDefect α) : ExceptT RowDefect Option α) = pure a := rfl

end

def scanSuffix (key suffix : Bytes) : ExceptT RowDefect Option (Bytes × Version × Bool) := do
  if suffix.length ≠ 9 then throw (.suffixLength suffix.length)
  let number ← readCell (← suffix.slice? 0 8)
  match ← (suffix[8]? : Option UInt8) with
  | 0 => return (key, complement number, false)
  | 1 => return (key, complement number, true)
  | mark => throw (.deletedFlag mark)

/-- Reads a data key by place. It comes to nothing at a place that does not exist. -/
def scanDataKey (raw : Bytes) : ExceptT RowDefect Option (Bytes × Version × Bool) := do
  match raw with
  | 1 :: rest =>
    let (key, i) ← scanKey rest [] 0
    scanSuffix key (← Bytes.slice? rest i rest.length)
  | _ => throw .notData

theorem scanSuffix_odd (key : Bytes) {suffix : Bytes} (width : suffix.length ≠ 9) :
    (scanSuffix key suffix).run = some (.error (.suffixLength suffix.length)) := by
  rw [scanSuffix, if_pos width]
  rfl

theorem scanSuffix_row (key : Bytes) {number : Bytes} (width : number.length = 8) (mark : UInt8) :
    (scanSuffix key (number ++ [mark])).run =
      some (if mark = 0 then .ok (key, complement number.toNat, false)
        else if mark = 1 then .ok (key, complement number.toNat, true)
        else .error (.deletedFlag mark)) := by
  have nine : (number ++ [mark]).length = 9 := by simp [width]
  have front : (number ++ [mark]).slice? 0 8 = some number := by
    simpa [width] using Bytes.slice?_append [] number [mark]
  have back : (number ++ [mark])[8]? = some mark := by simp [← width]
  have word : readCell number = .ok number.toNat := by rw [readCell, if_pos width]
  simp only [scanSuffix, nine, front, back, word, ne_eq, not_true_eq_false, if_false, lift_some,
    lift_ok, pure_bind]
  split
  · rfl
  · rfl
  · next notKept notDeleted =>
    rw [if_neg notKept, if_neg notDeleted]
    rfl

theorem scanKey_eq (rest : Bytes) :
    scanKey rest [] 0 =
      (unescape rest).map fun (key, suffix) => (key, rest.length - suffix.length) :=
  scanKey_append [] [] rest

theorem scanDataKey_stem (key suffix : Bytes) :
    scanDataKey (dataStem key ++ suffix) = scanSuffix key suffix := by
  have stem : dataStem key ++ suffix = 1 :: (escape key ++ [0, 1] ++ suffix) := rfl
  have parts : unescape (escape key ++ [0, 1] ++ suffix) = .ok (key, suffix) := by
    simpa using unescape_escape key suffix
  have place : (escape key ++ [0, 1] ++ suffix).length - suffix.length =
      (escape key ++ [0, 1]).length := by
    rw [List.length_append, Nat.add_sub_cancel]
  have found : scanKey (escape key ++ [0, 1] ++ suffix) [] 0 =
      .ok (key, (escape key ++ [0, 1]).length) := by
    rw [scanKey_eq, parts, ← place]
    rfl
  have behind := Bytes.slice?_append (escape key ++ [0, 1]) suffix []
  rw [List.append_nil, ← List.length_append] at behind
  rw [stem, scanDataKey, found]
  simp only [lift_ok, pure_bind, behind, lift_some]

theorem scanDataKey_eq (raw : Bytes) : (scanDataKey raw).run = some (readDataKey raw) := by
  cases form raw with
  | elsewhere other =>
    rw [readDataKey_elsewhere other]
    unfold scanDataKey
    split
    · next rest => exact absurd (by rfl) other
    · rfl
  | noKey unreadable =>
    have refused := (unescape_eq_error_iff _ _).2 unreadable
    rw [readDataKey_noKey unreadable, scanDataKey, scanKey_eq, refused]
    rfl
  | oddSuffix key width =>
    rw [readDataKey_oddSuffix key width, scanDataKey_stem, scanSuffix_odd key width]
  | row key width mark =>
    rw [readDataKey_row key width, scanDataKey_stem, scanSuffix_row key width]

/-- The reader of data keys accepts what is written and nothing else. Anything else has one of
the defects of form and fails an access as corrupt, and no place that is asked for is missing. -/
theorem readDataKey_exact (raw : Bytes) :
    (∀ key v deleted, readDataKey raw = .ok (key, v, deleted) ↔
      v < wordBound ∧ raw = dataKey key v deleted) ∧
    (∀ defect, readDataKey raw = .error defect ↔ Defective raw defect) ∧
    ((∃ key v deleted, v < wordBound ∧ raw = dataKey key v deleted) ∨
      ∃ defect, Defective raw defect ∧ ∀ d : Device,
        Durable.decoded (readDataKey raw) d = (.error (.storage (.corrupt defect)), d)) ∧
    (scanDataKey raw).run = some (readDataKey raw) := by
  refine ⟨readDataKey_eq_ok_iff raw, readDataKey_eq_error_iff raw, ?_, scanDataKey_eq raw⟩
  rcases read : readDataKey raw with defect | ⟨key, v, deleted⟩
  · exact .inr ⟨defect, (readDataKey_eq_error_iff raw defect).1 read, fun d => rfl⟩
  · exact .inl ⟨key, v, deleted, eq_dataKey_of_readDataKey read⟩

end Layout
end OptimisticStore
