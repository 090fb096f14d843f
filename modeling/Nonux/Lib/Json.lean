import Mathlib.Tactic

/-!
# JSON documents and schemas

A `Json` is what is written in a document. Reading it makes an object into a dictionary: where a key
is written twice, the value that comes last counts (`items`). A schema is what it accepts
(`Schema`); the combinators are the keywords.
-/

namespace Nonux.Lib

open List

inductive Json where
  | null
  | bool (b : Bool)
  /-- The number `mantissa * 10 ^ exponent`. -/
  | num (mantissa exponent : ℤ)
  | str (s : String)
  | arr (l : List Json)
  | obj (fields : List (String × Json))

/-- Where keys are different, an entry is found by its key. -/
theorem find?_key {α κ : Type} [DecidableEq κ] {key : α → κ} {l : List α}
    (hnodup : (l.map key).Nodup) {a : α} (ha : a ∈ l) :
    (l.find? fun b => key b = key a) = some a := by
  cases hfind : l.find? fun b => key b = key a with
  | none => exact absurd (find?_eq_none.mp hfind a ha) (by simp)
  | some b =>
    have hkey := find?_some hfind
    rw [inj_on_of_nodup_map hnodup (mem_of_find?_eq_some hfind) ha (of_decide_eq_true hkey)]

namespace Json

/-- Put a value under a key. A key that is there keeps its place. -/
def dictSet (d : List (String × Json)) (k : String) (v : Json) : List (String × Json) :=
  if k ∈ d.map Prod.fst then d.map fun e => if e.1 = k then (k, v) else e else d ++ [(k, v)]

/-- The entries of an object. -/
def items : Json → List (String × Json)
  | obj fields => fields.foldl (fun d e => dictSet d e.1 e.2) []
  | _ => []

def keys (j : Json) : List String := j.items.map Prod.fst

/-- The value of a key. -/
def get (j : Json) (k : String) : Option Json := (j.items.find? fun e => e.1 = k).map Prod.snd

def asStr : Json → Option String
  | str s => some s
  | _ => none

def asArr : Json → Option (List Json)
  | arr l => some l
  | _ => none

def isObj : Json → Bool
  | obj _ => true
  | _ => false

/-- Whether a value counts as true where a condition is asked for. -/
def truthy : Json → Bool
  | null => false
  | bool b => b
  | num mantissa _ => mantissa ≠ 0
  | str s => s ≠ ""
  | arr l => !l.isEmpty
  | j@(obj _) => !j.items.isEmpty

theorem dictSet_keys (d : List (String × Json)) (k : String) (v : Json) :
    (dictSet d k v).map Prod.fst = if k ∈ d.map Prod.fst then d.map Prod.fst
    else d.map Prod.fst ++ [k] := by
  unfold dictSet
  split_ifs with hk
  · rw [map_map]
    refine map_congr_left fun e _ => ?_
    by_cases he : e.1 = k
    · simp [he]
    · simp [he]
  · simp

theorem keys_nodup (j : Json) : j.keys.Nodup := by
  cases j with
  | obj fields =>
    have hfold : ∀ d : List (String × Json), (d.map Prod.fst).Nodup →
        ((fields.foldl (fun d e => dictSet d e.1 e.2) d).map Prod.fst).Nodup := by
      induction fields with
      | nil => exact fun d hd => hd
      | cons e fields ih =>
        refine fun d hd => ih _ ?_
        rw [dictSet_keys]
        split_ifs with hk
        · exact hd
        · exact nodup_append.mpr ⟨hd, nodup_singleton _, fun a ha b hb hab =>
            hk (mem_singleton.mp hb ▸ hab ▸ ha)⟩
    exact hfold [] nodup_nil
  | null | bool | num | str | arr => exact nodup_nil

theorem get_eq_some_iff {j : Json} {k : String} {v : Json} : j.get k = some v ↔ (k, v) ∈ j.items := by
  constructor
  · intro h
    obtain ⟨⟨k', v'⟩, hfind, rfl⟩ := Option.map_eq_some_iff.mp h
    have hk := find?_some hfind
    obtain rfl : k' = k := by simpa using hk
    exact mem_of_find?_eq_some hfind
  · intro h
    rw [get, find?_key j.keys_nodup h, Option.map_some]

theorem get_isSome_iff {j : Json} {k : String} : (j.get k).isSome ↔ k ∈ j.keys := by
  rw [Option.isSome_iff_exists, keys, mem_map]
  constructor
  · rintro ⟨v, hv⟩
    exact ⟨(k, v), get_eq_some_iff.mp hv, rfl⟩
  · rintro ⟨⟨_, v⟩, hmem, rfl⟩
    exact ⟨v, get_eq_some_iff.mpr hmem⟩

end Json

/-! ### Schemas -/

/-- What a schema accepts. -/
abbrev Schema : Type := Json → Bool

namespace Schema

def any : Schema := fun _ => true

/-- The schema `false`. -/
def never : Schema := fun _ => false

def string : Schema := fun j => j.asStr.isSome

def boolean : Schema
  | .bool _ => true
  | _ => false

/-- A string that has the pattern. -/
def matching (pattern : String → Bool) : Schema := fun j => j.asStr.any pattern

/-- One of the strings. -/
def enum (values : List String) : Schema := fun j => j.asStr.any (· ∈ values)

def nullable (s : Schema) : Schema
  | .null => true
  | j => s j

def array (item : Schema) : Schema
  | .arr l => l.all item
  | _ => false

/-- An object. `additional` is for keys that are not among the properties. -/
def object (properties : List (String × Schema)) (additional : Schema) (required : List String)
    (minProperties : ℕ) : Schema := fun j =>
  j.isObj && required.all (· ∈ j.keys) && decide (minProperties ≤ j.items.length) &&
    j.items.all fun e => ((properties.find? fun p => p.1 = e.1).map Prod.snd |>.getD additional) e.2

variable {properties : List (String × Schema)} {additional : Schema} {required : List String}
  {minProperties : ℕ} {j : Json} {k : String} {v : Json}

theorem object_required (h : object properties additional required minProperties j = true)
    (hk : k ∈ required) : ∃ v, j.get k = some v := by
  simp only [object, Bool.and_eq_true, all_eq_true, decide_eq_true_eq] at h
  exact Option.isSome_iff_exists.mp (Json.get_isSome_iff.mpr (h.1.1.2 k hk))

theorem object_property {s : Schema} (h : object properties additional required minProperties j = true)
    (hs : (properties.find? fun p => p.1 = k) = some (k, s)) (hv : j.get k = some v) : s v = true := by
  simp only [object, Bool.and_eq_true, all_eq_true] at h
  have := h.2 (k, v) (Json.get_eq_some_iff.mp hv)
  simpa [hs] using this

theorem object_additional (h : object properties additional required minProperties j = true)
    (hs : (properties.find? fun p => p.1 = k) = none) (hv : j.get k = some v) : additional v = true := by
  simp only [object, Bool.and_eq_true, all_eq_true] at h
  have := h.2 (k, v) (Json.get_eq_some_iff.mp hv)
  simpa [hs] using this

end Schema

end Nonux.Lib
