/-
# Hostel.Logic.JsonRecord — records as JSON objects.

The encoder writes the fields of a record in their order and leaves out those it omits.  The decoder
goes through the members of the object: a key selects the field of that name, or else the first one
whose name is equal up to case, or none.  So a record comes back field by field
(`decodeFields_encodeFields`), each value as its kind of field carries it (`Field.carry`).
-/
import Hostel.Logic.Json

namespace Hostel.Logic.Json

open Utf8 List Option

/-- A field of a record: its name, what the encoder writes for it, if it does not omit it, and what
decoding a value into it does. -/
structure Field (σ : Type*) where
  name : List UInt8
  get : σ → Option Json
  set : σ → Json → Option σ

section Records

variable {σ : Type*} (fields : List (Field σ))

def encodeFields (x : σ) : Json :=
  .obj (fields.filterMap fun f => (f.get x).map fun v => (f.name, v))

/-- A name up to case; two letters beyond ASCII fold to ASCII ones. -/
def foldName (name : List UInt8) : List Char :=
  (runes name).map fun r =>
    let c := r.toChar
    if c = '\u017f' then 'S' else if c = '\u212a' then 'K' else c.toUpper

/-- The field a key selects. -/
def selectField (key : List UInt8) : Option (Field σ) :=
  (fields.find? fun f => f.name = key).or (fields.find? fun f => foldName f.name = foldName key)

/-- Decoding members into a record, in their order. -/
def decodeMembers : σ → List (List UInt8 × Json) → Option σ
  | r, [] => some r
  | r, (k, v) :: ms =>
    match selectField fields k with
    | none => decodeMembers r ms
    | some f => (f.set r v).bind fun r => decodeMembers r ms

def decodeFields (r : σ) : Json → Option σ
  | .null => some r
  | .obj ms => decodeMembers fields r ms
  | _ => none

/-- What a field of `x` does to the record it is decoded into, after its way through the text. -/
def Field.carry (f : Field σ) (x r : σ) : Option σ :=
  match f.get x with
  | none => some r
  | some v => f.set r (repaired v)

variable {f : Field σ} {x : σ} {v : Json}

theorem Field.carry_of_none {x r : σ} (h : f.get x = none) : f.carry x r = some r := by
  rw [Field.carry, h]

theorem Field.carry_of_some {x r : σ} (h : f.get x = some v) :
    f.carry x r = f.set r (repaired v) := by
  rw [Field.carry, h]

variable {fields}

theorem selectField_of_mem (hn : (fields.map Field.name).Nodup) (hf : f ∈ fields) :
    selectField fields f.name = some f := by
  have hfind : (fields.find? fun g => g.name = f.name) = some f := by
    induction fields with
    | nil => cases hf
    | cons g gs ih =>
      rw [map_cons, nodup_cons] at hn
      rcases mem_cons.mp hf with rfl | hf
      · simp
      · have hne : g.name ≠ f.name := fun h => hn.1 (h ▸ mem_map_of_mem hf)
        rw [find?_cons_of_neg (by simpa using hne)]
        exact ih hn.2 hf
  rw [selectField, hfind]
  rfl

theorem decodeFields_encodeFields (hn : (fields.map Field.name).Nodup)
    (hr : ∀ f ∈ fields, repair f.name = f.name) (x r : σ) :
    decodeFields fields r (repaired (encodeFields fields x)) =
      fields.foldlM (fun r f => f.carry x r) r := by
  -- over the fields that are still to come; the ones that select are always all of them
  have hmembers : ∀ (fs : List (Field σ)) (r : σ), (∀ f ∈ fs, f ∈ fields) →
      decodeMembers fields r
      (repairedMembers (fs.filterMap fun f => (f.get x).map fun v => (f.name, v))) =
        fs.foldlM (fun r f => f.carry x r) r := by
    intro fs
    induction fs with
    | nil => intro r _; rfl
    | cons f fs ih =>
      intro r hfs
      have hf : f ∈ fields := hfs f mem_cons_self
      have htail := fun r => ih r fun g hg => hfs g (mem_cons_of_mem _ hg)
      rw [foldlM_cons, Field.carry]
      cases hget : f.get x with
      | none =>
        rw [filterMap_cons_none (by rw [hget]; rfl), htail]
        rfl
      | some v =>
        rw [filterMap_cons_some (by rw [hget]; rfl)]
        simp only [repairedMembers, decodeMembers, hr f hf, selectField_of_mem hn hf]
        exact congrArg _ (funext htail)
  exact hmembers fields r fun _ hf => hf

theorem integral_encodeFields (h : ∀ f ∈ fields, ∀ v, f.get x = some v → integral v = true) :
    integral (encodeFields fields x) = true := by
  show integralMembers _ = true
  induction fields with
  | nil => rfl
  | cons f fs ih =>
    have htail := ih fun g hg => h g (mem_cons_of_mem _ hg)
    cases hget : f.get x with
    | none =>
      rw [filterMap_cons_none (by rw [hget]; rfl)]
      exact htail
    | some v =>
      rw [filterMap_cons_some (by rw [hget]; rfl), integralMembers, Bool.and_eq_true]
      exact ⟨h f mem_cons_self v hget, htail⟩

theorem mem_of_selectField {key : List UInt8} (h : selectField fields key = some f) :
    f ∈ fields := by
  rw [selectField, or_eq_some_iff] at h
  rcases h with h | h
  · exact mem_of_find?_eq_some h
  · exact mem_of_find?_eq_some h.2

theorem decodeFields_invariant {P : σ → Prop}
    (hset : ∀ f ∈ fields, ∀ r v r', P r → repaired v = v → f.set r v = some r' → P r')
    {r r' : σ} (hv : repaired v = v) (hr : P r) (h : decodeFields fields r v = some r') : P r' := by
  have hmembers : ∀ ms r, repairedMembers ms = ms → P r →
      decodeMembers fields r ms = some r' → P r' := by
    intro ms
    induction ms with
    | nil =>
      intro r _ hr h
      cases h
      exact hr
    | cons m ms ih =>
      obtain ⟨k, v⟩ := m
      intro r hms hr h
      simp only [repairedMembers, cons.injEq, Prod.mk.injEq] at hms
      simp only [decodeMembers] at h
      split at h
      · exact ih r hms.2 hr h
      · next f hf =>
        obtain ⟨r₁, hr₁, h⟩ := bind_eq_some_iff.mp h
        exact ih r₁ hms.2 (hset f (mem_of_selectField hf) r v r₁ hr hms.1.2 hr₁) h
  cases v with
  | null =>
    cases h
    exact hr
  | obj ms => exact hmembers ms r (Json.obj.inj hv) hr h
  | bool | int | real | str | arr => cases h

end Records

/-! ## Kinds of fields -/

/-- A string field; `null` leaves it alone. -/
def decodeString (old : List UInt8) : Json → Option (List UInt8)
  | .null => some old
  | .str s => some s
  | _ => none

def decodeBool (old : Bool) : Json → Option Bool
  | .null => some old
  | .bool b => some b
  | _ => none

/-- An integer field of 64 bits. -/
def decodeInt (old : Int) : Json → Option Int
  | .null => some old
  | .int n => if -(2 ^ 63) ≤ n ∧ n < 2 ^ 63 then some n else none
  | _ => none

/-- The elements of a slice of strings. -/
def decodeElems : List (List UInt8) → List Json → Option (List (List UInt8))
  | _, [] => some []
  | old, v :: vs => do
    -- an element that was there is decoded into
    let s ← decodeString (old.headD []) v
    let ss ← decodeElems old.tail vs
    return s :: ss

/-- A slice of strings; `none` is the nil slice. -/
def decodeStrings (old : Option (List (List UInt8))) : Json → Option (Option (List (List UInt8)))
  | .null => some none
  | .arr vs => (decodeElems (old.getD []) vs).map some
  | _ => none

def ofStrings : Option (List (List UInt8)) → Json
  | none => .null
  | some ss => .arr (ss.map .str)

theorem integral_ofStrings (ss : Option (List (List UInt8))) : integral (ofStrings ss) = true := by
  cases ss with
  | none => rfl
  | some ss =>
    show integralElems (ss.map .str) = true
    induction ss with
    | nil => rfl
    | cons s ss ih => simpa [integralElems, integral] using ih

theorem repairedElems_map_str (ss : List (List UInt8)) :
    repairedElems (ss.map .str) = (ss.map repair).map .str := by
  induction ss with
  | nil => rfl
  | cons s ss ih => simp [repairedElems, repaired, ih]

theorem decodeElems_map_str (ss : List (List UInt8)) :
    ∀ old, decodeElems old (ss.map .str) = some ss := by
  induction ss with
  | nil => intro old; rfl
  | cons s ss ih => intro old; simp [decodeElems, decodeString, ih]

theorem decodeStrings_repaired (old ss : Option (List (List UInt8))) :
    decodeStrings old (repaired (ofStrings ss)) = some (ss.map (·.map repair)) := by
  cases ss with
  | none => rfl
  | some ss =>
    simp only [ofStrings, repaired, repairedElems_map_str, decodeStrings, decodeElems_map_str,
      map_some]

theorem valid_of_decodeString {old s : List UInt8} {v : Json} (hold : valid old = true)
    (hv : repaired v = v) (h : decodeString old v = some s) : valid s = true := by
  cases v with
  | null =>
    cases h
    exact hold
  | str s' =>
    cases h
    exact repair_eq_self_iff.mp (Json.str.inj hv)
  | bool | int | real | arr | obj => cases h

theorem valid_of_decodeElems {vs : List Json} : ∀ {old ss : List (List UInt8)},
    (∀ s ∈ old, valid s = true) → repairedElems vs = vs → decodeElems old vs = some ss →
    ∀ s ∈ ss, valid s = true := by
  induction vs with
  | nil =>
    intro old ss _ _ h
    cases h
    simp
  | cons v vs ih =>
    intro old ss hold hvs h
    simp only [repairedElems, cons.injEq] at hvs
    obtain ⟨x, hx, h⟩ := bind_eq_some_iff.mp h
    obtain ⟨xs, hxs, h⟩ := bind_eq_some_iff.mp h
    cases h
    have hhead : valid (old.headD []) = true := by
      cases old with
      | nil => rfl
      | cons y ys => exact hold y mem_cons_self
    rintro s (- | ⟨_, hs⟩)
    · exact valid_of_decodeString hhead hvs.1 hx
    · exact ih (fun y hy => hold y (mem_of_mem_tail hy)) hvs.2 hxs s hs

theorem valid_of_decodeStrings {old ss : Option (List (List UInt8))} {v : Json}
    (hold : ∀ s ∈ old.getD [], valid s = true) (hv : repaired v = v)
    (h : decodeStrings old v = some ss) : ∀ s ∈ ss.getD [], valid s = true := by
  cases v with
  | null =>
    cases h
    simp
  | arr vs =>
    obtain ⟨xs, hxs, rfl⟩ := map_eq_some_iff.mp h
    exact valid_of_decodeElems hold (Json.arr.inj hv) hxs
  | bool | int | real | str | obj => cases h

section Kinds

variable {σ : Type*} {x r : σ}

def Field.string (name : List UInt8) (omitempty : Bool) (get : σ → List UInt8)
    (set : σ → List UInt8 → σ) : Field σ where
  name
  get x := if omitempty ∧ get x = [] then none else some (.str (get x))
  set r v := (decodeString (get r) v).map (set r)

def Field.flag (name : List UInt8) (get : σ → Bool) (set : σ → Bool → σ) : Field σ where
  name
  get x := if get x then some (.bool true) else none
  set r v := (decodeBool (get r) v).map (set r)

def Field.count (name : List UInt8) (get : σ → Int) (set : σ → Int → σ) : Field σ where
  name
  get x := if get x = 0 then none else some (.int (get x))
  set r v := (decodeInt (get r) v).map (set r)

def Field.strings (name : List UInt8) (omitempty : Bool) (get : σ → Option (List (List UInt8)))
    (set : σ → Option (List (List UInt8)) → σ) : Field σ where
  name
  get x := if omitempty ∧ (get x).getD [] = [] then none else some (ofStrings (get x))
  set r v := (decodeStrings (get r) v).map (set r)

variable {name : List UInt8} {omitempty : Bool}

variable {set : σ → List UInt8 → σ} {get : σ → List UInt8}

theorem Field.carry_string (h : set r (get r) = r) (x : σ) :
    (Field.string name omitempty get set).carry x r =
      some (set r (if omitempty ∧ get x = [] then get r else repair (get x))) := by
  by_cases hx : omitempty ∧ get x = []
  · rw [Field.carry_of_none (if_pos hx), if_pos hx, h]
  · rw [Field.carry_of_some (if_neg hx), if_neg hx]
    rfl

theorem Field.carry_string_always (x r : σ) :
    (Field.string name false get set).carry x r = some (set r (repair (get x))) := by
  have h : (Field.string name false get set).get x = some (.str (get x)) := by
    simp [Field.string]
  rw [Field.carry_of_some h]
  rfl

theorem Field.carry_flag {get : σ → Bool} {set : σ → Bool → σ} (h : set r (get r) = r) (x : σ) :
    (Field.flag name get set).carry x r = some (set r (if get x then true else get r)) := by
  by_cases hx : get x = true
  · rw [Field.carry_of_some (if_pos hx), if_pos hx]
    rfl
  · rw [Field.carry_of_none (if_neg hx), if_neg hx, h]

theorem Field.carry_count {get : σ → Int} {set : σ → Int → σ}
    (h : set r (get r) = r) (hx : -(2 ^ 63) ≤ get x ∧ get x < 2 ^ 63) :
    (Field.count name get set).carry x r = some (set r (if get x = 0 then get r else get x)) := by
  by_cases h0 : get x = 0
  · rw [Field.carry_of_none (if_pos h0), if_pos h0, h]
  · rw [Field.carry_of_some (if_neg h0), if_neg h0]
    show (decodeInt (get r) (.int (get x))).map (set r) = _
    rw [decodeInt, if_pos hx]
    rfl

theorem Field.carry_strings {get : σ → Option (List (List UInt8))}
    {set : σ → Option (List (List UInt8)) → σ} (h : set r (get r) = r) (x : σ) :
    (Field.strings name omitempty get set).carry x r =
      some (set r (if omitempty ∧
        (get x).getD [] = [] then get r else (get x).map (·.map repair))) := by
  by_cases hx : omitempty ∧ (get x).getD [] = []
  · rw [Field.carry_of_none (if_pos hx), if_pos hx, h]
  · rw [Field.carry_of_some (if_neg hx), if_neg hx]
    show (decodeStrings (get r) (repaired (ofStrings (get x)))).map (set r) = _
    rw [decodeStrings_repaired, map_some]

/-- Every kind of field writes integers only. -/
theorem Field.integral_string :
    ∀ v, (Field.string name omitempty get set).get x = some v → integral v = true := by
  intro v hv
  rw [Field.string, ite_none_left_eq_some] at hv
  rw [← some.inj hv.2]
  rfl

theorem Field.integral_flag {get : σ → Bool} {set : σ → Bool → σ} :
    ∀ v, (Field.flag name get set).get x = some v → integral v = true := by
  intro v hv
  rw [Field.flag, ite_none_right_eq_some] at hv
  rw [← some.inj hv.2]
  rfl

theorem Field.integral_count {get : σ → Int} {set : σ → Int → σ} :
    ∀ v, (Field.count name get set).get x = some v → integral v = true := by
  intro v hv
  rw [Field.count, ite_none_left_eq_some] at hv
  rw [← some.inj hv.2]
  rfl

theorem Field.integral_strings {get : σ → Option (List (List UInt8))}
    {set : σ → Option (List (List UInt8)) → σ} :
    ∀ v, (Field.strings name omitempty get set).get x = some v → integral v = true := by
  intro v hv
  rw [Field.strings, ite_none_left_eq_some] at hv
  rw [← some.inj hv.2]
  exact integral_ofStrings _

end Kinds

end Hostel.Logic.Json
