import Mathlib.Data.List.Pairwise
import Unscramble.Proofs.Text.Lower
import Unscramble.Scope

/-! What a scope binds. As long as no name is bound in two frames, a write changes what its name is
bound to and nothing else, and leaving a frame only drops bindings. -/
namespace Unscramble

namespace Frame
variable {frame : Frame} {key k : String} {value v : Value}

theorem mem_erase : (k, v) ∈ frame.erase key ↔ (k, v) ∈ frame ∧ k ≠ key := by
  simp [erase, List.mem_filter]

theorem mem_insert : (k, v) ∈ frame.insert key value ↔
    (k = key ∧ v = value) ∨ ((k, v) ∈ frame ∧ k ≠ key) := by
  simp [insert, mem_erase]

theorem mem_of_find? (h : frame.find? key = some v) : (key, v) ∈ frame := by
  obtain ⟨⟨k, w⟩, hfind, rfl⟩ := Option.map_eq_some_iff.mp h
  have hkey : k = key := by simpa using List.find?_some hfind
  exact hkey ▸ List.mem_of_find?_eq_some hfind

theorem not_mem_of_has (h : frame.has key = false) (v : Value) : (key, v) ∉ frame :=
  fun hmem => by simpa using List.any_eq_false.mp h _ hmem

theorem exists_of_has (h : frame.has key = true) : ∃ v, (key, v) ∈ frame := by
  obtain ⟨⟨k, v⟩, hmem, hkey⟩ := List.any_eq_true.mp h
  exact ⟨v, by simpa [← beq_iff_eq.mp hkey] using hmem⟩

/-- No name is bound in both of two frames. -/
def Disjoint (f g : Frame) : Prop := ∀ k v w, (k, v) ∈ f → (k, w) ∉ g

end Frame

namespace Scope
variable {scope : Scope} {name k : String} {value v : Value}

def Binds (scope : Scope) (k : String) (v : Value) : Prop := ∃ frame ∈ scope.frames, (k, v) ∈ frame

/-- No name is bound in two frames. -/
def Apart (scope : Scope) : Prop := scope.frames.Pairwise Frame.Disjoint

theorem frames_ofFrames {frames : List Frame} (h : frames ≠ []) : (ofFrames frames).frames = frames := by
  cases frames with
  | nil => exact absurd rfl h
  | cons frame frames => rfl

theorem not_binds_empty : ¬ (Scope.Binds {} k v) := by simp [Binds, frames]

theorem apart_empty : Apart {} := List.pairwise_singleton _ _

theorem binds_of_get? (h : scope.get? name = some v) : scope.Binds (Text.lower name) v := by
  obtain ⟨frame, hframe, h⟩ := List.exists_of_findSome?_eq_some h
  exact ⟨frame, hframe, Frame.mem_of_find? h⟩

theorem binds_enter : scope.enter.Binds k v ↔ scope.Binds k v := by simp [Binds, enter, frames]

theorem apart_enter (h : scope.Apart) : scope.enter.Apart :=
  List.pairwise_cons.mpr ⟨fun _ _ _ _ _ hmem => absurd hmem List.not_mem_nil, h⟩

theorem frames_leave : scope.leave.frames.Sublist scope.frames := by
  obtain ⟨inner, _ | ⟨frame, frames⟩⟩ := scope
  · exact List.Sublist.refl _
  · exact List.sublist_cons_self ..

theorem binds_of_leave (h : scope.leave.Binds k v) : scope.Binds k v := by
  obtain ⟨frame, hframe, h⟩ := h
  exact ⟨frame, frames_leave.subset hframe, h⟩

theorem apart_leave (h : scope.Apart) : scope.leave.Apart := h.sublist frames_leave

/-! ### Forgetting -/

theorem frames_delete : (scope.delete name).frames = scope.frames.map (·.erase (Text.lower name)) :=
  frames_ofFrames (by simp [frames])

theorem binds_delete : (scope.delete name).Binds k v ↔ scope.Binds k v ∧ k ≠ Text.lower name := by
  simp only [Binds, frames_delete, List.mem_map, exists_exists_and_eq_and, Frame.mem_erase]
  exact ⟨fun ⟨f, hf, h, hne⟩ => ⟨⟨f, hf, h⟩, hne⟩, fun ⟨⟨f, hf, h⟩, hne⟩ => ⟨f, hf, h, hne⟩⟩

theorem apart_delete (h : scope.Apart) : (scope.delete name).Apart := by
  rw [Apart, frames_delete, List.pairwise_map]
  exact List.Pairwise.imp (fun h k v w hf hg =>
    h k v w (Frame.mem_erase.mp hf).1 (Frame.mem_erase.mp hg).1) h

theorem binds_foldl_delete {names : List String} : (names.foldl delete scope).Binds k v ↔
    scope.Binds k v ∧ ∀ name ∈ names, k ≠ Text.lower name := by
  induction names generalizing scope with
  | nil => simp
  | cons name names ih => rw [List.foldl_cons, ih, binds_delete, List.forall_mem_cons, and_assoc]

theorem apart_foldl_delete {names : List String} (h : scope.Apart) :
    (names.foldl delete scope).Apart := by
  induction names generalizing scope with
  | nil => exact h
  | cons name names ih => exact ih (apart_delete h)

/-! ### Writing -/

theorem overwrite?_none {key : String} {frames : List Frame} (h : overwrite? key value frames = none) :
    ∀ frame ∈ frames, frame.has key = false := by
  induction frames with
  | nil => simp
  | cons frame frames ih =>
    simp only [overwrite?] at h
    split at h
    next => cases h
    next hhas =>
      exact List.forall_mem_cons.mpr ⟨by simpa using hhas, ih (Option.map_eq_none_iff.mp h)⟩

/-- The binding is overwritten in one frame. -/
theorem overwrite?_some {key : String} {frames frames' : List Frame}
    (h : overwrite? key value frames = some frames') : ∃ before frame after,
      frames = before ++ frame :: after ∧ frames' = before ++ frame.insert key value :: after ∧
        frame.has key = true := by
  induction frames generalizing frames' with
  | nil => cases h
  | cons frame frames ih =>
    simp only [overwrite?] at h
    split at h
    next hhas => cases h; exact ⟨[], frame, frames, rfl, rfl, hhas⟩
    next =>
      obtain ⟨rest, hrest, rfl⟩ := Option.map_eq_some_iff.mp h
      obtain ⟨before, f, after, rfl, rfl, hhas⟩ := ih hrest
      exact ⟨frame :: before, f, after, rfl, rfl, hhas⟩

/-- A write changes one frame, and no other frame binds the name. -/
theorem set_eq (name : String) (value : Value) (h : scope.Apart) : ∃ before frame after,
    scope.frames = before ++ frame :: after ∧
    (scope.set name value).frames = before ++ frame.insert (Text.lower name) value :: after ∧
      ∀ f ∈ before ++ after, ∀ v, (Text.lower name, v) ∉ f := by
  cases hframes : overwrite? (Text.lower name) value scope.frames with
  | none =>
    have hnone := overwrite?_none hframes
    exact ⟨[], scope.inner, scope.outer, rfl, by simp only [set, hframes]; rfl, fun f hf =>
      Frame.not_mem_of_has (hnone f (List.mem_cons_of_mem _ hf))⟩
  | some frames =>
    obtain ⟨before, frame, after, heq, rfl, hhas⟩ := overwrite?_some hframes
    refine ⟨before, frame, after, heq, ?_, ?_⟩
    · simp only [set, hframes]
      exact frames_ofFrames (by simp)
    obtain ⟨w, hw⟩ := Frame.exists_of_has hhas
    rw [Apart, heq, List.pairwise_append, List.pairwise_cons] at h
    obtain ⟨-, ⟨hafter, -⟩, hbefore⟩ := h
    intro f hf v hv
    rcases List.mem_append.mp hf with hf | hf
    · exact hbefore f hf frame (by simp) _ _ _ hv hw
    · exact hafter f hf _ _ _ hw hv

theorem binds_of_set (h : scope.Apart) (hbinds : (scope.set name value).Binds k v) :
    (k = Text.lower name ∧ v = value) ∨ (scope.Binds k v ∧ k ≠ Text.lower name) := by
  obtain ⟨before, frame, after, heq, hset, hother⟩ := set_eq name value h
  obtain ⟨f, hf, hmem⟩ := hbinds
  rw [hset, List.mem_append, List.mem_cons] at hf
  have hframe (f : Frame) (hf : f ∈ before ++ after) (hmem : (k, v) ∈ f) :
      scope.Binds k v ∧ k ≠ Text.lower name := by
    refine ⟨⟨f, ?_, hmem⟩, fun hk => hother f hf v (hk ▸ hmem)⟩
    rw [heq]
    rcases List.mem_append.mp hf with hf | hf <;> simp [hf]
  rcases hf with hf | rfl | hf
  · exact .inr (hframe f (List.mem_append_left _ hf) hmem)
  · refine (Frame.mem_insert.mp hmem).imp_right fun h => ⟨⟨frame, ?_, h.1⟩, h.2⟩
    simp [heq]
  · exact .inr (hframe f (List.mem_append_right _ hf) hmem)

theorem apart_set (h : scope.Apart) : (scope.set name value).Apart := by
  obtain ⟨before, frame, after, heq, hset, hother⟩ := set_eq name value h
  rw [Apart, heq, List.pairwise_append, List.pairwise_cons] at h
  obtain ⟨hbefore, ⟨hafter, hrest⟩, hacross⟩ := h
  rw [Apart, hset, List.pairwise_append, List.pairwise_cons]
  refine ⟨hbefore, ⟨fun f hf k v w hmem hw => ?_, hrest⟩, fun f hf g hg k v w hv hmem => ?_⟩
  · rcases Frame.mem_insert.mp hmem with ⟨rfl, -⟩ | ⟨hmem, -⟩
    · exact hother f (List.mem_append_right _ hf) _ hw
    · exact hafter f hf k v w hmem hw
  · rcases List.mem_cons.mp hg with rfl | hg
    · rcases Frame.mem_insert.mp hmem with ⟨rfl, -⟩ | ⟨hmem, -⟩
      · exact hother f (List.mem_append_left _ hf) _ hv
      · exact hacross f hf frame (by simp) k v w hv hmem
    · exact hacross f hf g (List.mem_cons_of_mem _ hg) k v w hv hmem

end Scope
end Unscramble
