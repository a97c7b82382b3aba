import Unscramble.Proofs.Scripts.Bindings

/-! Runs of a scope. No run binds a name in two frames. So a frame that is left takes with it the names that were
unbound when it was entered, and no others: these keep what was last written to them. -/
namespace Unscramble

namespace Frame
variable {frame : Frame} {key k : String} {value : Value}

theorem has_eq (frame : Frame) (key : String) : frame.has key = (frame.find? key).isSome := by
  rw [has, find?, Option.isSome_map, List.isSome_find?]

theorem find?_erase : (frame.erase key).find? k = if key = k then none else frame.find? k := by
  unfold find? erase
  rw [List.find?_filter]
  split
  next h => simp [h]
  next h =>
    congr 2
    funext b
    by_cases hb : b.1 = k <;> simp [hb, Ne.symm h]

theorem find?_insert : (frame.insert key value).find? k = if key = k then some value else frame.find? k := by
  have herase : (frame.erase key).find? k = _ := find?_erase
  unfold find? at herase ⊢
  unfold insert
  by_cases h : key = k
  · simp [h]
  · simpa [h] using herase

end Frame

namespace Scope

/-- What can be done to a scope. -/
inductive Op where
  | enter
  | leave
  | set (name : String) (value : Value)
  | delete (name : String)

def perform (scope : Scope) : Op → Scope
  | .enter => scope.enter
  | .leave => scope.leave
  | .set name value => scope.set name value
  | .delete name => scope.delete name

def run (scope : Scope) (ops : List Op) : Scope := ops.foldl perform scope

/-- Runs that leave every frame that they enter, and no other. -/
inductive WellNested : List Op → Prop where
  | nil : WellNested []
  | set (name : String) (value : Value) {ops : List Op} : WellNested ops → WellNested (.set name value :: ops)
  | delete (name : String) {ops : List Op} : WellNested ops → WellNested (.delete name :: ops)
  | block {inner ops : List Op} : WellNested inner → WellNested ops →
      WellNested (.enter :: (inner ++ .leave :: ops))

/-- What an operation writes to a name. -/
def Op.written? (name : String) : Op → Option Value
  | .set other value => if Text.lower other = Text.lower name then some value else none
  | _ => none

/-- What a run writes to a name last. -/
def lastWritten? (name : String) : List Op → Option Value
  | [] => none
  | op :: ops => (lastWritten? name ops).or (op.written? name)

/-- Whether a run deletes a name. -/
def Deletes (name : String) (ops : List Op) : Prop :=
  ∃ other, .delete other ∈ ops ∧ Text.lower other = Text.lower name

/-! ### One binding for each name -/

section
variable {scope : Scope} {key : String} {value : Value}

theorem apart_perform (h : scope.Apart) (op : Op) : (scope.perform op).Apart := by
  cases op with
  | enter => exact apart_enter h
  | leave => exact apart_leave h
  | set => exact apart_set h
  | delete => exact apart_delete h

theorem apart_run (h : scope.Apart) (ops : List Op) : (scope.run ops).Apart := by
  induction ops generalizing scope with
  | nil => exact h
  | cons op ops ih => exact ih (apart_perform h op)

theorem countP_has_le {frames : List Frame} (h : frames.Pairwise Frame.Disjoint) (key : String) :
    frames.countP (·.has key) ≤ 1 := by
  induction frames with
  | nil => exact Nat.zero_le _
  | cons frame frames ih =>
    obtain ⟨hframe, hframes⟩ := List.pairwise_cons.mp h
    rw [List.countP_cons]
    split
    next hhas =>
      obtain ⟨v, hv⟩ := Frame.exists_of_has hhas
      have hnone : frames.countP (·.has key) = 0 := List.countP_eq_zero.mpr fun other hother hhas' => by
        obtain ⟨w, hw⟩ := Frame.exists_of_has hhas'
        exact hframe other hother key v w hv hw
      omega
    next => exact ih hframes

/-! ### What is done to the frames around a run -/

/-- What an operation does to the frames around those that it works in: a write reaches them if they bind its
name. -/
def touch (frames : List Frame) : Op → List Frame
  | .set name value => (overwrite? (Text.lower name) value frames).getD frames
  | .delete name => frames.map (·.erase (Text.lower name))
  | .enter | .leave => frames

theorem length_overwrite? {frames frames' : List Frame} (h : overwrite? key value frames = some frames') :
    frames'.length = frames.length := by
  obtain ⟨before, frame, after, rfl, rfl, -⟩ := overwrite?_some h
  simp

theorem length_touch (frames : List Frame) (op : Op) : (touch frames op).length = frames.length := by
  cases op with
  | enter | leave => rfl
  | delete => exact List.length_map _
  | set name value =>
    rw [touch]
    cases h : overwrite? (Text.lower name) value frames with
    | none => rfl
    | some frames' => exact length_overwrite? h

theorem length_foldl_touch (frames : List Frame) (ops : List Op) :
    (ops.foldl touch frames).length = frames.length := by
  induction ops generalizing frames with
  | nil => rfl
  | cons op ops ih => rw [List.foldl_cons, ih, length_touch]

theorem overwrite?_eq_none {frames : List Frame} (h : ∀ frame ∈ frames, frame.has key = false) :
    overwrite? key value frames = none := by
  induction frames with
  | nil => rfl
  | cons frame frames ih =>
    obtain ⟨hframe, hframes⟩ := List.forall_mem_cons.mp h
    simp [overwrite?, hframe, ih hframes]

theorem overwrite?_append (upper under : List Frame) : overwrite? key value (upper ++ under) =
    ((overwrite? key value upper).map (· ++ under)).or ((overwrite? key value under).map (upper ++ ·)) := by
  induction upper with
  | nil => simp [overwrite?]
  | cons frame upper ih =>
    rw [List.cons_append, overwrite?, overwrite?]
    split
    next => rfl
    next =>
      rw [ih]
      cases overwrite? key value upper <;> cases overwrite? key value under <;> rfl

/-- A write to a name that is bound in some frames does not reach the frames around them. -/
theorem overwrite?_under {upper upper' under : List Frame} (h : (upper ++ under).Pairwise Frame.Disjoint)
    (hupper : overwrite? key value upper = some upper') : overwrite? key value under = none := by
  obtain ⟨before, frame, after, rfl, -, hhas⟩ := overwrite?_some hupper
  obtain ⟨v, hv⟩ := Frame.exists_of_has hhas
  refine overwrite?_eq_none fun other hother => Bool.eq_false_iff.mpr fun hhas' => ?_
  obtain ⟨w, hw⟩ := Frame.exists_of_has hhas'
  exact (List.pairwise_append.mp h).2.2 frame (by simp) other hother key v w hv hw

theorem frames_set (name : String) (value : Value) {upper under : List Frame} (hscope : scope.Apart)
    (hupper : upper ≠ []) (hframes : scope.frames = upper ++ under) : ∃ upper', upper'.length = upper.length ∧
      (scope.set name value).frames = upper' ++ touch under (.set name value) := by
  rw [Apart, hframes] at hscope
  rw [touch]
  cases hwrite : overwrite? (Text.lower name) value upper with
  | some upper' =>
    rw [overwrite?_under hscope hwrite]
    have hlength := length_overwrite? hwrite
    have hne : upper' ≠ [] := List.ne_nil_of_length_pos (hlength ▸ List.length_pos_iff.mpr hupper)
    refine ⟨upper', hlength, ?_⟩
    have hset : overwrite? (Text.lower name) value scope.frames = some (upper' ++ under) := by
      rw [hframes, overwrite?_append, hwrite, Option.map_some, Option.some_or]
    simp only [set, hset, Option.getD_none]
    exact frames_ofFrames (List.append_ne_nil_of_left_ne_nil hne _)
  | none =>
    have hset : overwrite? (Text.lower name) value scope.frames =
        (overwrite? (Text.lower name) value under).map (upper ++ ·) := by
      rw [hframes, overwrite?_append, hwrite, Option.map_none, Option.none_or]
    cases hunder : overwrite? (Text.lower name) value under with
    | some under' =>
      rw [hunder, Option.map_some] at hset
      refine ⟨upper, rfl, ?_⟩
      simp only [set, hset, Option.getD_some]
      exact frames_ofFrames (List.append_ne_nil_of_left_ne_nil hupper _)
    | none =>
      rw [hunder, Option.map_none] at hset
      obtain ⟨frame, rest, rfl⟩ := List.exists_cons_of_ne_nil hupper
      obtain ⟨rfl, houter⟩ := List.cons.inj hframes
      refine ⟨scope.inner.insert (Text.lower name) value :: rest, rfl, ?_⟩
      simp only [set, hset, Option.getD_none]
      exact congrArg _ houter

theorem frames_leave_of_cons {frame : Frame} {frames : List Frame} (h : scope.frames = frame :: frames)
    (hne : frames ≠ []) : scope.leave.frames = frames := by
  obtain ⟨inner, outer⟩ := scope
  obtain ⟨rfl, rfl⟩ := List.cons.inj h
  obtain ⟨frame, frames, rfl⟩ := List.exists_cons_of_ne_nil hne
  rfl

/-- A run that leaves what it enters does to the frames around it what its operations do to them. -/
theorem frames_run {ops : List Op} (h : WellNested ops) {upper under : List Frame} (hscope : scope.Apart)
    (hupper : upper ≠ []) (hframes : scope.frames = upper ++ under) : ∃ upper', upper'.length = upper.length ∧
      (scope.run ops).frames = upper' ++ ops.foldl touch under := by
  induction h generalizing scope upper under with
  | nil => exact ⟨upper, rfl, hframes⟩
  | set name value _ ih =>
    obtain ⟨upper', hlength, hset⟩ := frames_set name value hscope hupper hframes
    have hne : upper' ≠ [] := List.ne_nil_of_length_pos (hlength ▸ List.length_pos_iff.mpr hupper)
    obtain ⟨upper'', hlength', hrun⟩ := ih (apart_set hscope) hne hset
    exact ⟨upper'', hlength'.trans hlength, hrun⟩
  | delete name _ ih =>
    have hdelete : (scope.delete name).frames =
        upper.map (·.erase (Text.lower name)) ++ touch under (.delete name) := by
      rw [frames_delete, hframes, List.map_append, touch]
    obtain ⟨upper', hlength, hrun⟩ := ih (apart_delete hscope) (by simpa using hupper) hdelete
    exact ⟨upper', hlength.trans (List.length_map _), hrun⟩
  | @block inner ops _ _ ihInner ih =>
    have henter : scope.enter.frames = ([] :: upper) ++ under := congrArg _ hframes
    obtain ⟨upper', hlength, hinner⟩ := ihInner (apart_enter hscope) (List.cons_ne_nil _ _) henter
    obtain ⟨frame, rest, rfl⟩ := List.exists_cons_of_length_eq_add_one hlength
    have hrest : rest.length = upper.length := by simpa using hlength
    have hne : rest ≠ [] := by
      rintro rfl
      exact hupper (List.length_eq_zero_iff.mp hrest.symm)
    have hleave := frames_leave_of_cons hinner (List.append_ne_nil_of_left_ne_nil hne _)
    obtain ⟨upper'', hlength', hrun⟩ := ih (apart_leave (apart_run (apart_enter hscope) inner)) hne hleave
    refine ⟨upper'', hlength'.trans hrest, ?_⟩
    simp only [run, List.foldl_cons, List.foldl_append] at hrun ⊢
    exact hrun

/-! ### What is bound -/

/-- What an operation does to what a name is bound to around it. -/
def Op.effect (name : String) : Op → Option Value → Option Value
  | .set other value, bound =>
    if Text.lower other = Text.lower name then bound.map fun _ => value else bound
  | .delete other, bound => if Text.lower other = Text.lower name then none else bound
  | _, bound => bound

theorem find?_overwrite? (key k : String) (value : Value) (frames : List Frame) :
    ((overwrite? key value frames).getD frames).findSome? (·.find? k) =
      if key = k then (frames.findSome? (·.find? k)).map fun _ => value
      else frames.findSome? (·.find? k) := by
  induction frames with
  | nil => simp [overwrite?]
  | cons frame frames ih =>
    rw [overwrite?, Frame.has_eq]
    cases hfind : frame.find? key with
    | some v =>
      simp only [Option.isSome_some, if_true, Option.getD_some, List.findSome?_cons, Frame.find?_insert]
      by_cases h : key = k
      · subst h
        simp [hfind]
      · simp [h]
    | none =>
      have hgetD : ((overwrite? key value frames).map (frame :: ·)).getD (frame :: frames) =
          frame :: (overwrite? key value frames).getD frames := by
        cases overwrite? key value frames <;> rfl
      simp only [Option.isSome_none, Bool.false_eq_true, if_false, hgetD, List.findSome?_cons, ih]
      by_cases h : key = k
      · subst h
        simp [hfind]
      · simp [h]

theorem find?_touch (name : String) (frames : List Frame) (op : Op) :
    (touch frames op).findSome? (·.find? (Text.lower name)) =
      op.effect name (frames.findSome? (·.find? (Text.lower name))) := by
  cases op with
  | enter | leave => rfl
  | set other value => exact find?_overwrite? ..
  | delete other =>
    rw [touch, Op.effect, List.findSome?_map]
    simp only [Function.comp_def, Frame.find?_erase]
    split
    next => simp
    next => rfl

theorem find?_foldl_touch (name : String) (frames : List Frame) (ops : List Op) :
    (ops.foldl touch frames).findSome? (·.find? (Text.lower name)) =
      ops.foldl (fun bound op => op.effect name bound) (frames.findSome? (·.find? (Text.lower name))) := by
  induction ops generalizing frames with
  | nil => rfl
  | cons op ops ih => rw [List.foldl_cons, List.foldl_cons, ih, find?_touch]

theorem effect_none (name : String) (op : Op) : op.effect name none = none := by
  cases op <;> simp [Op.effect]

theorem foldl_effect_none (name : String) (ops : List Op) :
    ops.foldl (fun bound op => op.effect name bound) none = none := by
  induction ops with
  | nil => rfl
  | cons op ops ih => rw [List.foldl_cons, effect_none, ih]

theorem foldl_effect_some (name : String) (v : Value) {ops : List Op} (h : ¬Deletes name ops) :
    ops.foldl (fun bound op => op.effect name bound) (some v) = some ((lastWritten? name ops).getD v) := by
  induction ops generalizing v with
  | nil => rfl
  | cons op ops ih =>
    have hops : ¬Deletes name ops := fun ⟨other, hmem, hname⟩ => h ⟨other, List.mem_cons_of_mem _ hmem, hname⟩
    have hop : op.effect name (some v) = some ((op.written? name).getD v) := by
      cases op with
      | enter | leave => rfl
      | set other value =>
        rw [Op.effect, Op.written?]
        split <;> rfl
      | delete other => exact if_neg fun hname => h ⟨other, List.mem_cons_self, hname⟩
    rw [List.foldl_cons, hop, ih _ hops, lastWritten?, Option.getD_or]

theorem foldl_effect_deleted {name : String} {ops : List Op} (h : Deletes name ops) (bound : Option Value) :
    ops.foldl (fun bound op => op.effect name bound) bound = none := by
  obtain ⟨other, hmem, hname⟩ := h
  obtain ⟨before, after, rfl⟩ := List.append_of_mem hmem
  rw [List.foldl_append, List.foldl_cons, Op.effect, if_pos hname, foldl_effect_none]

/-- What is left of a run in a frame of its own. -/
theorem get?_leave {ops : List Op} (h : WellNested ops) (hscope : scope.Apart) (name : String) :
    ((scope.enter.run ops).leave).get? name =
      ops.foldl (fun bound op => op.effect name bound) (scope.get? name) := by
  obtain ⟨upper, hlength, hrun⟩ := frames_run h (apart_enter hscope) (List.cons_ne_nil _ _)
    (show scope.enter.frames = [[]] ++ scope.frames from rfl)
  obtain ⟨frame, rfl⟩ := List.length_eq_one_iff.mp hlength
  have hne : ops.foldl touch scope.frames ≠ [] :=
    List.ne_nil_of_length_pos (by simp [length_foldl_touch, frames])
  have hleave : ((scope.enter.run ops).leave).frames = ops.foldl touch scope.frames :=
    frames_leave_of_cons hrun hne
  rw [get?, hleave, find?_foldl_touch, get?]

end

/-- After any run the stack has a frame and no name is bound in two. So a block that follows leaves unbound what
was unbound before it and what it deletes, and a name that was bound before it has the value that the block wrote
last, or its old one. -/
theorem run_binds_once (before : List Op) :
    let scope := run {} before
    scope.frames ≠ [] ∧ (∀ key, scope.frames.countP (·.has key) ≤ 1) ∧
      ∀ ops, WellNested ops → ∀ name,
        let after := (scope.enter.run ops).leave
        (scope.get? name = none → after.get? name = none) ∧
          (Deletes name ops → after.get? name = none) ∧
            ∀ v, scope.get? name = some v → ¬Deletes name ops →
              after.get? name = some ((lastWritten? name ops).getD v) := by
  intro scope
  have hscope : scope.Apart := apart_run apart_empty before
  refine ⟨List.cons_ne_nil _ _, countP_has_le hscope, fun ops hops name => ?_⟩
  have hget := get?_leave hops hscope name
  refine ⟨fun hnone => ?_, fun hdeletes => ?_, fun v hv hdeletes => ?_⟩
  · rw [hget, hnone, foldl_effect_none]
  · rw [hget, foldl_effect_deleted hdeletes]
  · rw [hget, hv, foldl_effect_some name v hdeletes]

/-- A name written two frames further in, one that is only bound inside, and one that is deleted and bound again. -/
theorem run_binds_once_inside :
    let scope := run {} [.leave, .set "X" (.text "outer"), .enter, .set "y" (.text "v")]
    let ops : List Op := [.enter, .set "x" (.text "inner"), .leave, .set "z" (.int 1), .delete "Y",
      .set "y" (.int 2)]
    let after := (scope.enter.run ops).leave
    WellNested ops ∧ (scope.get? "Z" = none ∧ after.get? "Z" = none) ∧
      (Deletes "y" ops ∧ after.get? "y" = none) ∧
        scope.get? "x" = some (.text "outer") ∧ ¬Deletes "x" ops ∧ after.get? "x" = some (.text "inner") := by
  intro scope ops after
  have hops : WellNested ops := .block (.set _ _ .nil) (.set _ _ (.delete _ (.set _ _ .nil)))
  have hz : scope.get? "Z" = none := by decide +kernel
  have hx : scope.get? "x" = some (.text "outer") := by decide +kernel
  have hdeletes : Deletes "y" ops := ⟨"Y", by simp [ops], by decide +kernel⟩
  have hkeeps : ¬Deletes "x" ops := by
    rintro ⟨other, hmem, hname⟩
    obtain rfl : other = "Y" := by simpa [ops] using hmem
    exact absurd hname (by decide +kernel)
  obtain ⟨-, -, hrun⟩ :=
    run_binds_once [.leave, .set "X" (.text "outer"), .enter, .set "y" (.text "v")]
  have hafter := (hrun ops hops "x").2.2 _ hx hkeeps
  have hlast : lastWritten? "x" ops = some (.text "inner") := by decide +kernel
  rw [hlast] at hafter
  exact ⟨hops, ⟨hz, (hrun ops hops "Z").1 hz⟩, ⟨hdeletes, (hrun ops hops "y").2.1 hdeletes⟩, hx, hkeeps, hafter⟩

end Scope
end Unscramble
