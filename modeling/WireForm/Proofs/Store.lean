import WireForm.Proofs.OneShot
import WireForm.Sync.Queue

/-!
# What happens to the results in a store

Results are looked up by number, and a number that was never given out stands for a result of which
nothing is known. So a store is read through one total function, and everything that is said of its
results is said of all numbers.

No call makes a result incoherent, takes back a final state, or frees a number for another result.

## Main definitions

* `Store.Coherent` — all results are coherent
* `Store.Evolves` — every result evolves, and none is lost

## Main results

* `Store.cell_setCell_self`, `Store.cell_setCell_of_ne`, `Store.cell_create_self`,
  `Store.cell_create_of_ne` — looking results up
* `Store.hasConsumers_of_lookup`, `Store.hasConsumers_of_addHandle` and so on — what handles are on
* `Store.Evolves.setCell`, `Store.evolves_create` — changes to a store evolve it
-/

namespace WireForm.Sync.Store

variable {V : Type} {s s' s'' : Store V} {id j : Nat} {c : Cell V}

/-! ### Looking results up -/

@[simp] theorem length_setCell : (s.setCell id c).cells.length = s.cells.length := List.length_set

@[simp] theorem length_create : (s.create c).cells.length = s.cells.length + 1 :=
  List.length_append

theorem cell_setCell_self (h : id < s.cells.length) : (s.setCell id c).cell id = c := by
  rw [cell, setCell, List.getElem?_set_self h]
  rfl

theorem cell_setCell_of_ne (h : j ≠ id) : (s.setCell id c).cell j = s.cell j := by
  rw [cell, setCell, List.getElem?_set_ne h.symm, cell]

theorem cell_of_le (h : s.cells.length ≤ id) : s.cell id = .fresh := by
  rw [cell, List.getElem?_eq_none h]
  rfl

theorem cell_of_cells_eq (h : s'.cells = s.cells) : s'.cell id = s.cell id := by
  rw [cell, h, cell]

/-- Setting a result to what it is changes nothing, also under a number that was never given out. -/
theorem setCell_cell (s : Store V) (id : Nat) : s.setCell id (s.cell id) = s := by
  have hcells : s.cells.set id (s.cell id) = s.cells := by
    by_cases hid : id < s.cells.length
    · rw [cell, List.getElem?_eq_getElem hid]
      exact List.set_getElem_self hid
    · exact List.set_eq_of_length_le (Nat.not_lt.mp hid)
  rw [setCell, hcells]

theorem cell_create_self : (s.create c).cell s.cells.length = c := by
  rw [cell, create, List.getElem?_concat_length]
  rfl

theorem cell_create_of_ne (h : j ≠ s.cells.length) : (s.create c).cell j = s.cell j := by
  by_cases hj : j < s.cells.length
  · rw [cell, create, List.getElem?_append_left hj, cell]
  · rw [cell_of_le (Nat.not_lt.mp hj), cell_of_le]
    rw [length_create]
    omega

/-- A number that is not given out yet stands for what a new result is. -/
theorem cell_create_fresh : (s.create .fresh).cell id = s.cell id := by
  by_cases hid : id = s.cells.length
  · rw [hid, cell_create_self, cell_of_le (Nat.le_refl _)]
  · exact cell_create_of_ne hid

/-! ### Handles -/

@[simp] theorem hasConsumers_setCell : (s.setCell id c).hasConsumers j = s.hasConsumers j := rfl

theorem hasConsumers_addHandle (name : String) (h : Handle V) :
    (s.addHandle name h).hasConsumers h.cell = true := by
  simp [hasConsumers, addHandle]

theorem hasConsumers_iff : s.hasConsumers id = true ↔
    (∃ entry ∈ s.handles, entry.2.cell = id) ∨ ∃ entry ∈ s.away, entry.2.cell = id := by
  simp only [hasConsumers, Bool.or_eq_true, List.any_eq_true, beq_iff_eq]

/-- A handle that is found is one on its result. -/
theorem hasConsumers_of_lookup {entries : List (String × Handle V)} {name : String} {h : Handle V}
    (hfound : entries.lookup name = some h) (hentries : entries = s.handles ∨ entries = s.away) :
    s.hasConsumers h.cell = true := by
  obtain ⟨before, after, hsplit, -⟩ := List.lookup_eq_some_iff.mp hfound
  have hmem : (name, h) ∈ entries := by simp [hsplit]
  rw [hasConsumers_iff]
  rcases hentries with rfl | rfl
  · exact Or.inl ⟨_, hmem, rfl⟩
  · exact Or.inr ⟨_, hmem, rfl⟩

theorem hasConsumers_of_dropHandle {name : String}
    (h : (s.dropHandle name).hasConsumers id = true) : s.hasConsumers id = true := by
  rw [hasConsumers_iff] at h ⊢
  refine h.imp_left fun ⟨entry, hentry, hid⟩ => ⟨entry, ?_, hid⟩
  exact (List.mem_filter.mp hentry).1

/-- A new handle is on no result but its own. -/
theorem hasConsumers_of_addHandle {name : String} {handle : Handle V}
    (h : (s.addHandle name handle).hasConsumers id = true) :
    s.hasConsumers id = true ∨ id = handle.cell := by
  rw [hasConsumers_iff] at h
  rcases h with ⟨entry, hentry, rfl⟩ | ⟨entry, haway, hid⟩
  · rcases List.mem_append.mp hentry with hold | hnew
    · have hdropped : (s.dropHandle name).hasConsumers entry.2.cell = true :=
        hasConsumers_iff.mpr (Or.inl ⟨entry, hold, rfl⟩)
      exact Or.inl (hasConsumers_of_dropHandle hdropped)
    · rw [List.mem_singleton.mp hnew]
      exact Or.inr rfl
  · exact Or.inl (hasConsumers_iff.mpr (Or.inr ⟨entry, haway, hid⟩))

/-- A handle that goes away was there. -/
theorem hasConsumers_of_sendAway {name : String} (h : (s.sendAway name).hasConsumers id = true) :
    s.hasConsumers id = true := by
  rw [sendAway] at h
  split at h
  · rename_i handle hfound
    rcases hasConsumers_iff.mp h with ⟨entry, hentry, hid⟩ | ⟨entry, haway, hid⟩
    · have hdropped : (s.dropHandle name).hasConsumers id = true :=
        hasConsumers_iff.mpr (Or.inl ⟨entry, hentry, hid⟩)
      exact hasConsumers_of_dropHandle hdropped
    · rcases List.mem_cons.mp haway with rfl | haway
      · rw [← hid]
        exact hasConsumers_of_lookup hfound (Or.inl rfl)
      · exact hasConsumers_iff.mpr (Or.inr ⟨entry, haway, hid⟩)
  · exact h

/-- A handle that comes back was away. -/
theorem hasConsumers_of_bringBack {name : String}
    (h : (s.bringBack name).hasConsumers id = true) : s.hasConsumers id = true := by
  rw [bringBack] at h
  split at h
  · rename_i handle hfound
    rcases hasConsumers_of_addHandle h with hold | rfl
    · rw [hasConsumers_iff] at hold ⊢
      refine hold.imp_right fun ⟨entry, hentry, hid⟩ => ⟨entry, ?_, hid⟩
      exact (List.mem_filter.mp hentry).1
    · exact hasConsumers_of_lookup hfound (Or.inr rfl)
  · exact h

theorem cells_sendAway (name : String) : (s.sendAway name).cells = s.cells := by
  rw [sendAway]
  split <;> rfl

theorem cells_bringBack (name : String) : (s.bringBack name).cells = s.cells := by
  rw [bringBack]
  split <;> rfl

/-! ### Evolution -/

/-- Every result is coherent. -/
def Coherent (s : Store V) : Prop := ∀ id, (s.cell id).Coherent

theorem coherent_empty : (empty : Store V).Coherent := fun id => by
  rw [cell_of_le (Nat.zero_le id)]
  exact Cell.coherent_fresh

/-- No result is lost, and every one evolves. -/
structure Evolves (s s' : Store V) : Prop where
  /-- A number that was given out stays given out. -/
  length_le : s.cells.length ≤ s'.cells.length
  /-- Every result evolves. -/
  cell : ∀ id, (s.cell id).Evolves (s'.cell id)

namespace Evolves

theorem refl (s : Store V) : s.Evolves s := ⟨Nat.le_refl _, fun _ => Cell.Evolves.refl _⟩

theorem trans (h : s.Evolves s') (h' : s'.Evolves s'') : s.Evolves s'' :=
  ⟨Nat.le_trans h.length_le h'.length_le, fun id => (h.cell id).trans (h'.cell id)⟩

/-- What happens to handles does not matter to results. -/
theorem of_cells_eq (h : s'.cells = s.cells) : s.Evolves s' := by
  refine ⟨Nat.le_of_eq (by rw [h]), fun id => ?_⟩
  rw [cell_of_cells_eq h]
  exact Cell.Evolves.refl _

theorem setCell (h : (s.cell id).Evolves c) : s.Evolves (s.setCell id c) := by
  refine ⟨Nat.le_of_eq length_setCell.symm, fun j => ?_⟩
  by_cases hj : j = id
  · subst hj
    by_cases hid : j < s.cells.length
    · rw [cell_setCell_self hid]
      exact h
    · rw [cell_of_le (Nat.not_lt.mp hid), cell_of_le (by rw [length_setCell]; omega)]
      exact Cell.Evolves.refl _
  · rw [cell_setCell_of_ne hj]
    exact Cell.Evolves.refl _

theorem coherent (h : s.Evolves s') (hs : s.Coherent) : s'.Coherent := fun id =>
  (h.cell id (hs id)).1

/-- A final state stays as it is. -/
theorem state_eq (h : s.Evolves s') (hs : s.Coherent) (hfinal : (s.cell id).state.isFinal = true) :
    (s'.cell id).state = (s.cell id).state :=
  (h.cell id (hs id)).2 hfinal

end Evolves

theorem evolves_create : s.Evolves (s.create .fresh) := by
  refine ⟨by rw [length_create]; omega, fun id => ?_⟩
  rw [cell_create_fresh]
  exact Cell.Evolves.refl _

theorem evolves_dropProvider (s : Store V) (id : Nat) : s.Evolves (s.dropProvider id) :=
  Evolves.setCell (s.cell id).evolves_cancel

theorem evolves_foldl_dropProvider (s : Store V) (ids : List Nat) :
    s.Evolves (ids.foldl (fun s id => s.dropProvider id) s) := by
  induction ids generalizing s with
  | nil => exact Evolves.refl s
  | cons id ids ih => exact (evolves_dropProvider s id).trans (ih _)

end WireForm.Sync.Store
