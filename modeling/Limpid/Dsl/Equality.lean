import Limpid.Dsl.Eval
import Limpid.Dsl.Settle
import Limpid.Metrics.Schema

/-!
# The equality of the language

`values_match`, the equality of `==` and of `switch`, beside `PartialEq for Value`, which it uses
inside arrays and objects.  The two differ at timestamps only (`valuesMatch_eq`): `values_match`
has no arm for them, so that no timestamp matches itself.

`PartialEq` is reflexive on values without NaN and symmetric.  It is transitive but where two
different integers meet one float between them (`Apart`): an integer is rounded before it is
compared to a float, and the two may be rounded to the same one.
-/

namespace Limpid.Dsl

/-- The equality of `f64`. -/
structure FloatEq (rt : Runtime) : Prop where
  refl : ∀ x, rt.isNan x = false → rt.eq x x = true
  symm : ∀ x y, rt.eq x y = true → rt.eq y x = true
  trans : ∀ x y z, rt.eq x y = true → rt.eq y z = true → rt.eq x z = true

namespace Value

def isTimestamp : Value → Bool
  | timestamp _ => true
  | _ => false

mutual

/-- There is no NaN in the value. -/
def NanFree (rt : Runtime) : Value → Prop
  | float x => rt.isNan x = false
  | array items => NanFreeItems rt items
  | object entries => NanFreeEntries rt entries
  | _ => True

def NanFreeItems (rt : Runtime) : List Value → Prop
  | [] => True
  | item :: rest => NanFree rt item ∧ NanFreeItems rt rest

def NanFreeEntries (rt : Runtime) : List (String × Value) → Prop
  | [] => True
  | (_, value) :: rest => NanFree rt value ∧ NanFreeEntries rt rest

end

mutual

/-- At some place there are two different integers with a float between them. -/
def Apart : Value → Value → Value → Prop
  | int m, float _, int n => m ≠ n
  | array as, array bs, array cs => ApartItems as bs cs
  | object as, object bs, object cs => ApartEntries as bs cs
  | _, _, _ => False

def ApartItems : List Value → List Value → List Value → Prop
  | a :: as, b :: bs, c :: cs => Apart a b c ∨ ApartItems as bs cs
  | _, _, _ => False

def ApartEntries : List (String × Value) → List (String × Value) → List (String × Value) → Prop
  | (_, a) :: as, (_, b) :: bs, (_, c) :: cs => Apart a b c ∨ ApartEntries as bs cs
  | _, _, _ => False

end

section Laws

variable {rt : Runtime}

theorem beq_refl (hfloat : FloatEq rt) {a : Value} (h : NanFree rt a) : beq rt a a = true := by
  induction a using Value.induction with
  | null => rfl
  | bool | int | string | bytes | timestamp => exact decide_eq_true rfl
  | float x => exact hfloat.refl x h
  | array items ih =>
      rw [NanFree] at h
      rw [beq]
      induction items with
      | nil => rfl
      | cons item rest ihRest =>
          obtain ⟨hitem, hrest⟩ := h
          obtain ⟨ihItem, ih⟩ := List.forall_mem_cons.mp ih
          rw [beqItems, ihItem hitem, ihRest ih hrest]
          rfl
  | object entries ih =>
      rw [NanFree] at h
      rw [beq]
      induction entries with
      | nil => rfl
      | cons entry rest ihRest =>
          obtain ⟨key, value⟩ := entry
          obtain ⟨hvalue, hrest⟩ := h
          obtain ⟨ihValue, ih⟩ := List.forall_mem_cons.mp ih
          rw [beqEntries, ihValue hvalue, ihRest ih hrest]
          simp

/-- Neither a number nor a container. -/
def isPlain : Value → Bool
  | int _ | float _ | array _ | object _ => false
  | _ => true

theorem eq_of_beq_plain {a b : Value} (ha : a.isPlain = true) (h : beq rt a b = true) : b = a := by
  cases a with
  | null =>
      cases b with
      | null => rfl
      | _ => exact nomatch h
  | bool first =>
      cases b with
      | bool second => exact congrArg bool (of_decide_eq_true h).symm
      | _ => exact nomatch h
  | string first =>
      cases b with
      | string second => exact congrArg string (of_decide_eq_true h).symm
      | _ => exact nomatch h
  | bytes first =>
      cases b with
      | bytes second => exact congrArg bytes (of_decide_eq_true h).symm
      | _ => exact nomatch h
  | timestamp first =>
      cases b with
      | timestamp second => exact congrArg timestamp (of_decide_eq_true h).symm
      | _ => exact nomatch h
  | int | float | array | object => exact nomatch ha

theorem beq_symm (hfloat : FloatEq rt) {a b : Value} (h : beq rt a b = true) :
    beq rt b a = true := by
  induction a using Value.induction generalizing b with
  | null | bool | string | bytes | timestamp =>
      obtain rfl := eq_of_beq_plain rfl h
      exact h
  | int m =>
      cases b with
      | int n => exact decide_eq_true (of_decide_eq_true h).symm
      | float x => exact h
      | _ => exact nomatch h
  | float x =>
      cases b with
      | int n => exact h
      | float y => exact hfloat.symm x y h
      | _ => exact nomatch h
  | array items ih =>
      cases b with
      | array others =>
          rw [beq] at h ⊢
          induction items generalizing others with
          | nil => cases others <;> simp_all [beqItems]
          | cons item rest ihRest =>
              cases others with
              | nil => exact nomatch h
              | cons other others =>
                  obtain ⟨ihItem, ih⟩ := List.forall_mem_cons.mp ih
                  rw [beqItems, Bool.and_eq_true] at h
                  rw [beqItems, ihItem h.1, ihRest ih others h.2]
                  rfl
      | _ => exact nomatch h
  | object entries ih =>
      cases b with
      | object others =>
          rw [beq] at h ⊢
          induction entries generalizing others with
          | nil => cases others <;> simp_all [beqEntries]
          | cons entry rest ihRest =>
              cases others with
              | nil => exact nomatch h
              | cons other others =>
                  obtain ⟨ihEntry, ih⟩ := List.forall_mem_cons.mp ih
                  simp only [beqEntries, Bool.and_eq_true, decide_eq_true_eq] at h ⊢
                  exact ⟨⟨h.1.1.symm, ihEntry h.1.2⟩, ihRest ih others h.2⟩
      | _ => exact nomatch h

/-- **Transitivity holds exactly where no two integers are apart.** -/
theorem beq_trans_iff (hfloat : FloatEq rt) {a b c : Value} (hab : beq rt a b = true)
    (hbc : beq rt b c = true) : beq rt a c = true ↔ ¬Apart a b c := by
  induction a using Value.induction generalizing b c with
  | null | bool | string | bytes | timestamp =>
      obtain rfl := eq_of_beq_plain rfl hab
      obtain rfl := eq_of_beq_plain rfl hbc
      simpa [Apart] using hab
  | int m =>
      -- an integer and a float are compared as floats, two integers as integers; this is the gap
      cases b with
      | int n =>
          obtain rfl : m = n := of_decide_eq_true hab
          cases c with
          | int k => simpa [Apart] using hbc
          | float y => simpa [Apart] using hbc
          | _ => exact nomatch hbc
      | float x =>
          cases c with
          | int n => simp [beq, Apart]
          | float y => simpa [beq, Apart] using hfloat.trans _ _ _ hab hbc
          | _ => exact nomatch hbc
      | _ => exact nomatch hab
  | float x =>
      cases b with
      | int n =>
          cases c with
          | int k =>
              obtain rfl : n = k := of_decide_eq_true hbc
              simpa [beq, Apart] using hab
          | float y => simpa [beq, Apart] using hfloat.trans _ _ _ (hfloat.symm _ _ hab) hbc
          | _ => exact nomatch hbc
      | float y =>
          cases c with
          | int k =>
              simpa [beq, Apart] using hfloat.trans _ _ _ hbc (hfloat.symm _ _ hab)
          | float z => simpa [beq, Apart] using hfloat.trans _ _ _ hab hbc
          | _ => exact nomatch hbc
      | _ => exact nomatch hab
  | array items ih =>
      -- item by item; the lists have one length because they are equal in pairs
      cases b with
      | array others =>
          cases c with
          | array lasts =>
              rw [beq] at hab hbc ⊢
              rw [Apart]
              induction items generalizing others lasts with
              | nil =>
                  cases others with
                  | cons => exact nomatch hab
                  | nil =>
                      cases lasts with
                      | cons => exact nomatch hbc
                      | nil => simp [beqItems, ApartItems]
              | cons item rest ihRest =>
                  cases others with
                  | nil => exact nomatch hab
                  | cons other others =>
                      cases lasts with
                      | nil => exact nomatch hbc
                      | cons last lasts =>
                          obtain ⟨ihItem, ih⟩ := List.forall_mem_cons.mp ih
                          rw [beqItems, Bool.and_eq_true] at hab hbc ⊢
                          rw [ApartItems, not_or]
                          exact and_congr (ihItem hab.1 hbc.1) (ihRest ih others hab.2 lasts hbc.2)
          | _ => exact nomatch hbc
      | _ => exact nomatch hab
  | object entries ih =>
      cases b with
      | object others =>
          cases c with
          | object lasts =>
              rw [beq] at hab hbc ⊢
              rw [Apart]
              induction entries generalizing others lasts with
              | nil =>
                  cases others with
                  | cons => exact nomatch hab
                  | nil =>
                      cases lasts with
                      | cons => exact nomatch hbc
                      | nil => simp [beqEntries, ApartEntries]
              | cons entry rest ihRest =>
                  cases others with
                  | nil => exact nomatch hab
                  | cons other others =>
                      cases lasts with
                      | nil => exact nomatch hbc
                      | cons last lasts =>
                          obtain ⟨ihEntry, ih⟩ := List.forall_mem_cons.mp ih
                          simp only [beqEntries, Bool.and_eq_true, decide_eq_true_eq] at hab hbc ⊢
                          rw [ApartEntries, not_or, hab.1.1, hbc.1.1]
                          have hvalue := ihEntry hab.1.2 hbc.1.2
                          have hrest := ihRest ih others hab.2 lasts hbc.2
                          rw [hvalue, hrest]
                          simp
          | _ => exact nomatch hbc
      | _ => exact nomatch hab

end Laws

end Value

/-! ## `==` -/

section Match

variable {rt : Runtime}

/-- `==` is `PartialEq`, but for timestamps. -/
theorem valuesMatch_eq (a b : Value) :
    valuesMatch rt a b = (Value.beq rt a b && !a.isTimestamp) := by
  cases a with
  | timestamp => cases b <;> simp [valuesMatch, Value.isTimestamp]
  | _ => cases b <;> simp [valuesMatch, Value.beq, Value.isTimestamp]

theorem isTimestamp_of_beq {a b : Value} (h : Value.beq rt a b = true) :
    b.isTimestamp = a.isTimestamp := by
  cases a with
  | null | bool | string | bytes | timestamp =>
      obtain rfl := Value.eq_of_beq_plain rfl h
      rfl
  | int | float | array | object =>
      cases b with
      | timestamp => exact nomatch h
      | _ => rfl

theorem valuesMatch_eq_true {a b : Value} :
    valuesMatch rt a b = true ↔ Value.beq rt a b = true ∧ a.isTimestamp = false := by
  rw [valuesMatch_eq, Bool.and_eq_true, Bool.not_eq_true']

/-- Items that match pairwise. -/
theorem beqItems_of_match {items others : List Value}
    (h : List.Forall₂ (fun item other => valuesMatch rt item other = true) items others) :
    Value.beqItems rt items others = true := by
  induction h with
  | nil => rfl
  | cons hfirst _ ih => rw [Value.beqItems, (valuesMatch_eq_true.mp hfirst).1, ih]; rfl

theorem beqEntries_of_match {entries others : List (String × Value)}
    (h : List.Forall₂ (fun entry other => entry.1 = other.1 ∧
      valuesMatch rt entry.2 other.2 = true) entries others) :
    Value.beqEntries rt entries others = true := by
  induction h with
  | nil => rfl
  | cons hfirst _ ih =>
      obtain ⟨hkey, hvalue⟩ := hfirst
      simp only [Value.beqEntries, hkey, (valuesMatch_eq_true.mp hvalue).1, ih]
      simp

/-- `==` is an equivalence at three values, and goes through arrays and objects. -/
structure Lawful (rt : Runtime) (a b c : Value) : Prop where
  refl : valuesMatch rt a a = true
  symm : valuesMatch rt a b = true → valuesMatch rt b a = true
  trans : valuesMatch rt a b = true → valuesMatch rt b c = true → valuesMatch rt a c = true
  items : ∀ items others,
    List.Forall₂ (fun item other => valuesMatch rt item other = true) items others →
      valuesMatch rt (.array items) (.array others) = true
  entries : ∀ entries others : List (String × Value),
    List.Forall₂ (fun entry other => entry.1 = other.1 ∧ valuesMatch rt entry.2 other.2 = true)
        entries others →
      valuesMatch rt (.object entries) (.object others) = true

/-- **`==` is an equivalence but for timestamps, and for integers that a float does not tell
apart.** -/
theorem lawful_iff (hfloat : FloatEq rt) {a : Value} (ha : a.NanFree rt) (b c : Value) :
    Lawful rt a b c ↔ a.isTimestamp = false ∧
      ¬(Value.beq rt a b = true ∧ Value.beq rt b c = true ∧ Value.Apart a b c) := by
  constructor
  · intro h
    have hplain := (valuesMatch_eq_true.mp h.refl).2
    refine ⟨hplain, fun ⟨hab, hbc, hapart⟩ => ?_⟩
    have hbPlain : b.isTimestamp = false := (isTimestamp_of_beq hab).trans hplain
    have hac := h.trans (valuesMatch_eq_true.mpr ⟨hab, hplain⟩)
      (valuesMatch_eq_true.mpr ⟨hbc, hbPlain⟩)
    exact (Value.beq_trans_iff hfloat hab hbc).mp (valuesMatch_eq_true.mp hac).1 hapart
  · rintro ⟨hplain, hnever⟩
    refine ⟨valuesMatch_eq_true.mpr ⟨Value.beq_refl hfloat ha, hplain⟩, fun hab => ?_,
      fun hab hbc => ?_, fun items others hitems => ?_, fun entries others hentries => ?_⟩
    · have hbeq := (valuesMatch_eq_true.mp hab).1
      exact valuesMatch_eq_true.mpr
        ⟨Value.beq_symm hfloat hbeq, (isTimestamp_of_beq hbeq).trans hplain⟩
    · have hfirst := (valuesMatch_eq_true.mp hab).1
      have hsecond := (valuesMatch_eq_true.mp hbc).1
      exact valuesMatch_eq_true.mpr ⟨(Value.beq_trans_iff hfloat hfirst hsecond).mpr
        fun hapart => hnever ⟨hfirst, hsecond, hapart⟩, hplain⟩
    · exact beqItems_of_match hitems
    · exact beqEntries_of_match hentries

theorem floatEq_twoFloats : FloatEq Metrics.twoFloats :=
  ⟨fun _ _ => decide_eq_true rfl,
    fun _ _ h => decide_eq_true (of_decide_eq_true h).symm,
    fun _ _ _ hxy hyz => decide_eq_true ((of_decide_eq_true hxy).trans (of_decide_eq_true hyz))⟩

theorem lawful_items : Lawful Metrics.twoFloats (.array [.int 1, .float .one])
    (.array [.int 1, .float .one]) (.array [.int 1, .float .one]) := by
  refine (lawful_iff floatEq_twoFloats ?_ _ _).mpr ⟨rfl, ?_⟩
  · simp [Value.NanFree, Value.NanFreeItems, Metrics.twoFloats]
  · simp [Value.Apart, Value.ApartItems]

/-- A timestamp does not match itself, and a float may match two integers. -/
theorem not_lawful : (∀ rt : Runtime, valuesMatch rt (.timestamp 0) (.timestamp 0) = false) ∧
    ∀ (rt : Runtime) (x : F64), rt.eq (rt.ofInt 9007199254740992) x = true →
      rt.eq (rt.ofInt 9007199254740993) x = true →
        valuesMatch rt (.int 9007199254740992) (.float x) = true ∧
          valuesMatch rt (.float x) (.int 9007199254740993) = true ∧
            valuesMatch rt (.int 9007199254740992) (.int 9007199254740993) = false :=
  ⟨fun _ => rfl, fun _ _ hfirst hsecond => ⟨hfirst, hsecond, rfl⟩⟩

end Match

end Limpid.Dsl
