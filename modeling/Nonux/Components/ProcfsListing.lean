import Mathlib.Data.List.TakeWhile
import Nonux.Components.Procfs

/-!
# Listing `/proc` while processes come and go

A listing calls `procfs_op_readdir` until there is no entry left. The cookie is a position among the
processes that there are at the call, so a process that comes or goes before that position moves the
others against it.

* `listing_complete`: if processes come and go only behind the entries that were given, a listing
  has the processes that are there when it ends, each once.
-/

namespace Nonux.Components

open Nonux.Framework Nonux.Lib Nonux.Syscall Function List

/-- The places of processes, in the order of `nx_process_for_each`. -/
def allPlaces : List ProcKey := none :: (List.finRange 128).map some

/-- The names that `procfs_op_readdir` makes for the processes at `places`. -/
def namesAt (ps : Procs) (places : List ProcKey) : List Path :=
  places.filterMap fun k => (ps.slot k).map fun p => decimal p.pid.toNat

/-- A listing under way. -/
structure Listing where
  procs : Procs
  cookie : UInt32 := 0
  entries : List Path := []
  ended : Bool := false

inductive ListingStep where
  | create (name : Path) (malloc mmu : Bool)
  | fork (parent : Process) (malloc mmu : Bool)
  /-- A process is reaped. -/
  | destroy (i : Fin 128)
  | readdir

/-- The processes after a step, and the place where one came or went. -/
def ListingStep.change (ps : Procs) : ListingStep → Procs × Option ProcKey
  | .create name malloc mmu => nxProcessCreate ps name malloc mmu
  | .fork parent malloc mmu => nxProcessFork ps parent malloc mmu
  | .destroy i => (nxProcessDestroy ps (some i), some (some i))
  | .readdir => (ps, none)

/-- A step, up to the end of the listing. -/
def Listing.step (s : Listing) (a : ListingStep) : Listing :=
  if s.ended then s
  else
    match a with
    | .readdir =>
      match procfsOpReaddir s.procs procPath s.cookie with
      | .ok (cookie, name) => { s with cookie, entries := s.entries ++ [name] }
      | .error _ => { s with ended := true }
    | .create .. | .fork .. | .destroy _ => { s with procs := (a.change s.procs).1 }

/-- A process comes or goes behind the entries: no more were given than there are processes before
its place. -/
def StepsBehind (s : Listing) (a : ListingStep) : Prop :=
  ∀ k ∈ (a.change s.procs).2, s.cookie.toNat ≤ (namesAt s.procs (allPlaces.takeWhile (· ≠ k))).length

instance instDecidableStepsBehind (s : Listing) (a : ListingStep) : Decidable (StepsBehind s a) :=
  inferInstanceAs (Decidable (∀ k ∈ (a.change s.procs).2, _))

/-! ### The names of the processes -/

variable {ps ps' : Procs} {k : ProcKey}

theorem slot_change {a : ListingStep} (hk : k ∉ (a.change ps).2) :
    (a.change ps).1.slot k = ps.slot k := by
  cases a with
  | create name malloc mmu =>
    rcases nxProcessCreate_eq ps name malloc mmu with ⟨n, -, heq⟩ | ⟨i, -, -, heq⟩ <;>
      simp_all [ListingStep.change, Procs.set, update_of_ne, eq_comm]
  | fork parent malloc mmu =>
    rcases nxProcessFork_eq ps parent malloc mmu with ⟨n, -, heq⟩ | ⟨i, -, -, heq⟩ <;>
      simp_all [ListingStep.change, Procs.set, update_of_ne, eq_comm]
  | destroy i => exact update_of_ne (fun h : k = some i => hk (h ▸ rfl)) _ _
  | readdir => rfl

theorem namesAt_congr {places : List ProcKey} (h : ∀ j ∈ places, ps'.slot j = ps.slot j) :
    namesAt ps' places = namesAt ps places := filterMap_congr fun j hj => by rw [h j hj]

/-- A change at a place with at least `n` processes before it leaves the first `n` names. -/
theorem take_namesAt (h : ∀ j ≠ k, ps'.slot j = ps.slot j) {n : ℕ}
    (hn : n ≤ (namesAt ps (allPlaces.takeWhile (· ≠ k))).length) :
    (namesAt ps' allPlaces).take n = (namesAt ps allPlaces).take n ∧
    n ≤ (namesAt ps' allPlaces).length := by
  have hsplit : ∀ ps, namesAt ps allPlaces =
      namesAt ps (allPlaces.takeWhile (· ≠ k)) ++ namesAt ps
        (allPlaces.dropWhile (· ≠ k)) := fun ps => by
    rw [namesAt, namesAt, namesAt, ← filterMap_append, takeWhile_append_dropWhile]
  have hfront : namesAt ps' (allPlaces.takeWhile (· ≠ k)) = namesAt ps (allPlaces.takeWhile (· ≠ k)) :=
    namesAt_congr fun j hj => h j (by simpa using mem_takeWhile_imp hj)
  rw [hsplit ps, hsplit ps', hfront, take_append_of_le_length hn, take_append_of_le_length hn,
    length_append]
  exact ⟨rfl, Nat.le_add_right_of_le hn⟩

theorem namesAt_allPlaces (ps : Procs) :
    namesAt ps allPlaces = (nxProcessForEach ps).map fun p => decimal p.pid.toNat := by
  rw [nxProcessForEach, map_append, map_filterMap, namesAt, allPlaces, filterMap_cons, filterMap_map]
  cases ps.slot none <;> rfl

theorem procfsOpReaddir_root (ps : Procs) (cookie : UInt32) : procfsOpReaddir ps procPath cookie =
    match (namesAt ps allPlaces)[cookie.toNat]? with
    | none => .error .enoent
    | some name => .ok (cookie + 1, name) := by
  rw [procfsOpReaddir, if_neg (by decide), if_pos (by decide), namesAt_allPlaces, getElem?_map]
  cases (nxProcessForEach ps)[cookie.toNat]? <;> rfl

/-! ### A listing -/

namespace Listing

/-- The listing has the names before the cookie, and all of them at its end. -/
structure Ok (s : Listing) : Prop where
  entries : s.entries = (namesAt s.procs allPlaces).take s.cookie.toNat
  within : s.cookie.toNat ≤ (namesAt s.procs allPlaces).length
  ended : s.ended = true → (namesAt s.procs allPlaces).length ≤ s.cookie.toNat

variable {s : Listing} {a : ListingStep}

theorem Ok.change (hbehind : StepsBehind s a) (h : s.Ok) (hended : ¬ s.ended = true) :
    Ok { s with procs := (a.change s.procs).1 } := by
  cases hk : (a.change s.procs).2 with
  | none =>
    have hsame : namesAt (a.change s.procs).1 allPlaces = namesAt s.procs allPlaces :=
      namesAt_congr fun j _ => slot_change (by simp [hk])
    exact ⟨by rw [hsame, h.entries], hsame ▸ h.within, fun hend => absurd hend hended⟩
  | some k =>
    obtain ⟨htake, hlen⟩ := take_namesAt (fun j hj => slot_change (a := a) (by simp [hk, hj.symm]))
      (hbehind k hk)
    exact ⟨by rw [htake, h.entries], hlen, fun hend => absurd hend hended⟩

theorem Ok.step (hbehind : StepsBehind s a) (h : s.Ok) : (s.step a).Ok := by
  unfold Listing.step
  split_ifs with hended
  · exact h
  cases a with
  | readdir =>
    simp only [procfsOpReaddir_root]
    cases hat : (namesAt s.procs allPlaces)[s.cookie.toNat]? with
    | none => exact ⟨h.entries, h.within, fun _ => getElem?_eq_none_iff.mp hat⟩
    | some name =>
      obtain ⟨hlt, -⟩ := List.getElem?_eq_some_iff.mp hat
      have hlen : (namesAt s.procs allPlaces).length ≤ 129 :=
        (length_filterMap_le _ _).trans (by simp [allPlaces])
      have hnext : (s.cookie + 1).toNat = s.cookie.toNat + 1 := by
        rw [UInt32.toNat_add]
        exact Nat.mod_eq_of_lt (by simp; omega)
      refine ⟨?_, hnext ▸ hlt, fun hend => absurd hend hended⟩
      rw [hnext, take_add_one, hat, h.entries]
      rfl
  | _ => exact h.change hbehind hended

/-- If processes come and go only behind the entries that were given, a listing has one entry for
each process that is there at its end, in the order of the table. A process that is there all the
time is one of them. -/
theorem listing_complete (ps : Procs) (steps : List ListingStep)
    (hok : RunOk step StepsBehind { procs := ps } steps)
    (hended : (runFrom step { procs := ps } steps).ended = true) :
    (runFrom step { procs := ps } steps).entries =
      (nxProcessForEach (runFrom step { procs := ps } steps).procs).map
        fun p => decimal p.pid.toNat := by
  have h : (runFrom step { procs := ps } steps).Ok :=
    RunOk.inv Ok (fun _ _ hbehind h => h.step hbehind) hok ⟨by simp, by simp, by simp⟩
  rw [h.entries, take_of_length_le (h.ended hended), namesAt_allPlaces]

theorem listing_complete_boot :
    (runFrom step { procs := bootProcs } [.readdir, .create [] true true, .readdir,
      .readdir]).entries = [[48], [49]] :=
  listing_complete bootProcs [.readdir, .create [] true true, .readdir, .readdir]
    (by decide +kernel) (by decide +kernel)

/-- The process with pid 1 is reaped when it has been listed, so the next call is past the process
with pid 2, which is there all the time. -/
theorem listing_skips :
    let ps := (nxProcessCreate (nxProcessCreate bootProcs [] true true).1 [] true true).1
    let steps := [ListingStep.readdir, .readdir, .destroy 0, .readdir]
    (∀ pre ∈ steps.inits, ((runFrom step { procs := ps } pre).procs.slot (some 1)).map
      (·.pid) = some 2) ∧ (runFrom step { procs := ps } steps).ended = true ∧
        (runFrom step { procs := ps } steps).entries = [[48], [49]] := by
  decide +kernel

end Listing

end Nonux.Components
