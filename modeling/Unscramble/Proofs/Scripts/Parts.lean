import Unscramble.Proofs.Scripts.Expressions

/-! Parts of a script that a walk goes through once while a run takes any way through them. The two
are kept together by what a part may write: the scope after a part binds nothing new but what the
part writes, and nothing that it may have written differently. -/
namespace Unscramble.Scripts

open Simplify

variable {V : Type*} {I : Interpretation V} {around : Surroundings} {σ : State V}
  {names ns : List String} {m m' n n' : Run V} {a b d : Scope}

/-- What a walk through a part of a script comes to, which leads from one scope to another, given
what the part writes and what it does before and after. -/
structure Walked (I : Interpretation V) (around : Surroundings) (names : List String)
    (m m' : Run V) (a b : Scope) : Prop where
  apart : a.Apart → b.Apart
  binds : a.Apart → ∀ {k v}, b.Binds k v → a.Binds k v ∨ (k ∈ names ∧ around.mayTrack k = true)
  frame : ∀ {σ k}, k ∉ names → (m σ).2.store k = σ.store k
  same : ∀ {σ}, Sound I a σ → m' σ = m σ
  sound : ∀ {σ}, Sound I a σ → (m σ).1 = .done → Sound I b (m σ).2

/-- The same for a part that leaves no binding for what it writes, so that what holds after it holds
in whatever way it ends. -/
structure Settled (I : Interpretation V) (names : List String) (m m' : Run V) (a b : Scope) :
    Prop where
  apart : a.Apart → b.Apart
  binds : a.Apart → ∀ {k v}, b.Binds k v → a.Binds k v ∧ k ∉ names
  frame : ∀ {σ k}, k ∉ names → (m σ).2.store k = σ.store k
  same : ∀ {σ}, Sound I a σ → m' σ = m σ

namespace Settled
variable {c c' : State V → Bool}

theorem sound (h : Settled I names m m' a b) (hσ : Sound I a σ) : Sound I b (m σ).2 :=
  hσ.mono (h.apart hσ.apart) fun hk =>
    ⟨(h.binds hσ.apart hk).1, h.frame (h.binds hσ.apart hk).2⟩

theorem walked (h : Settled I names m m' a b) : Walked I around names m m' a b where
  apart := h.apart
  binds ha _ _ hk := .inl (h.binds ha hk).1
  frame := h.frame
  same := h.same
  sound hσ _ := h.sound hσ

theorem skip : Settled I [] skip skip a a :=
  ⟨id, fun _ _ _ hk => ⟨hk, List.not_mem_nil⟩, fun _ => rfl, fun _ => rfl⟩

/-- Fewer bindings hold in more states. -/
theorem drop (hm : Settled I names m m' a b) (hσ : Sound I a σ) : Sound I b σ :=
  hσ.mono (hm.apart hσ.apart) fun hk => ⟨(hm.binds hσ.apart hk).1, rfl⟩

theorem choose (hc : ∀ {σ}, Sound I a σ → c' σ = c σ) (hm : Settled I names m m' a b)
    (hn : Settled I ns n n' b d) :
    Settled I (names ++ ns) (choose c m n) (choose c' m' n') a d where
  apart h := hn.apart (hm.apart h)
  binds h _ _ hk := by
    obtain ⟨hb, hns⟩ := hn.binds (hm.apart h) hk
    obtain ⟨ha, hnames⟩ := hm.binds h hb
    exact ⟨ha, by simp [hnames, hns]⟩
  frame hk := by
    rw [List.mem_append, not_or] at hk
    simp only [Scripts.choose]
    split
    · exact hm.frame hk.1
    · exact hn.frame hk.2
  same hσ := by simp only [Scripts.choose, hc hσ, hm.same hσ, hn.same (hm.drop hσ)]

/-- A write of what is not known. -/
theorem write {f f' : State V → V} {key : String} (hlower : Text.lower key = key)
    (hf : ∀ {σ}, Sound I a σ → f' σ = f σ) : Settled I [key]
      (fun σ => (.done, σ.write key (f σ))) (fun σ => (.done, σ.write key (f' σ))) a
        (a.delete key) where
  apart := Scope.apart_delete
  binds _ k v hk := by
    obtain ⟨hk, hne⟩ := Scope.binds_delete.mp hk
    exact ⟨hk, by simpa [hlower] using hne⟩
  frame hk := State.write_other _ _ (by simpa using hk)
  same hσ := by simp only [hf hσ]

/-- What a part writes may be forgotten before it and after it. -/
theorem forget (h : Settled I names m m' (names.foldl Scope.delete a) b) :
    Settled I names m m' a (names.foldl Scope.delete b) where
  apart ha := Scope.apart_foldl_delete (h.apart (Scope.apart_foldl_delete ha))
  binds ha _ _ hk := by
    obtain ⟨hk, hnames⟩ :=
      h.binds (Scope.apart_foldl_delete ha) (Scope.binds_foldl_delete.mp hk).1
    exact ⟨(Scope.binds_foldl_delete.mp hk).1, hnames⟩
  frame := h.frame
  same hσ := h.same (hσ.mono (Scope.apart_foldl_delete hσ.apart) fun hk =>
    ⟨(Scope.binds_foldl_delete.mp hk).1, rfl⟩)

end Settled

namespace Walked

theorem stop (ending : Ending) : Walked I around [] (stop ending) (stop ending) a a :=
  ⟨id, fun _ _ _ => .inl, fun _ => rfl, fun _ => rfl, fun hσ _ => hσ⟩

/-- A command looks at the store, and writes to the trace only. -/
theorem call {name : String} {f f' : State V → List V} (hf : ∀ {σ}, Sound I a σ → f' σ = f σ) :
    Walked I around [] (fun σ => (.done, σ.call name (f σ))) (fun σ => (.done, σ.call name (f' σ)))
      a a :=
  ⟨id, fun _ _ _ => .inl, fun _ => rfl, fun hσ => by simp only [hf hσ],
    fun hσ _ => ⟨hσ.apart, hσ.readable, hσ.holds⟩⟩

theorem mono (h : Walked I around names m m' a b) (hsub : names ⊆ ns) :
    Walked I around ns m m' a b where
  apart := h.apart
  binds ha _ _ hk := (h.binds ha hk).imp_right fun hk => ⟨hsub hk.1, hk.2⟩
  frame hk := h.frame fun hmem => hk (hsub hmem)
  same := h.same
  sound := h.sound

theorem andThen (hm : Walked I around names m m' a b) (hn : Walked I around ns n n' b d) :
    Walked I around (names ++ ns) (andThen m n) (andThen m' n') a d where
  apart h := hn.apart (hm.apart h)
  binds h _ _ hk := by
    rcases hn.binds (hm.apart h) hk with hk | ⟨hk, htrack⟩
    · exact (hm.binds h hk).imp_right fun hk => ⟨List.mem_append_left _ hk.1, hk.2⟩
    · exact .inr ⟨List.mem_append_right _ hk, htrack⟩
  frame hk := by
    rw [List.mem_append, not_or] at hk
    simp only [Scripts.andThen]
    split
    · rw [hn.frame hk.2, hm.frame hk.1]
    · exact hm.frame hk.1
  same hσ := by
    simp only [Scripts.andThen, hm.same hσ]
    split
    next hdone => exact hn.same (hm.sound hσ hdone)
    next => rfl
  sound hσ hdone := by
    simp only [Scripts.andThen] at hdone ⊢
    split at hdone
    next hfirst =>
      rw [if_pos hfirst]
      exact hn.sound (hm.sound hσ hfirst) hdone
    next hne => exact absurd hdone hne

/-- A write of a literal. -/
theorem write {f f' : State V → V} {key : String} {v : Value} (hlower : Text.lower key = key)
    (htrack : around.mayTrack key = true) (hv : IsReadable v) (hvalue : ∀ σ, f σ = I.denote v)
    (hf : ∀ {σ}, Sound I a σ → f' σ = f σ) : Walked I around [key]
      (fun σ => (.done, σ.write key (f σ))) (fun σ => (.done, σ.write key (f' σ))) a
        (a.set key v) where
  apart := Scope.apart_set
  binds ha k w hk := by
    rcases Scope.binds_of_set ha hk with ⟨rfl, -⟩ | ⟨hk, -⟩
    · exact .inr ⟨by simp [hlower], by rwa [hlower]⟩
    · exact .inl hk
  frame hk := State.write_other _ _ (by simpa using hk)
  same hσ := by simp only [hf hσ]
  sound {σ} hσ _ := by
    refine ⟨Scope.apart_set hσ.apart, fun hk => ?_, fun hk => ?_⟩
    all_goals rcases Scope.binds_of_set hσ.apart hk with ⟨rfl, rfl⟩ | ⟨hk, hne⟩
    · exact hv
    · exact hσ.readable hk
    · rw [hlower, State.write_same, hvalue]
    · rw [State.write_other _ _ (by rwa [hlower] at hne), hσ.holds hk]

/-- A block has a frame of its own. -/
theorem block (h : Walked I around names m m' a.enter b) : Walked I around names m m' a b.leave where
  apart ha := Scope.apart_leave (h.apart (Scope.apart_enter ha))
  binds ha _ _ hk :=
    (h.binds (Scope.apart_enter ha) (Scope.binds_of_leave hk)).imp_left Scope.binds_enter.mp
  frame := h.frame
  same hσ := h.same (enter hσ)
  sound hσ hdone := by
    have hb := h.sound (enter hσ) hdone
    exact hb.mono (Scope.apart_leave hb.apart) fun hk => ⟨Scope.binds_of_leave hk, rfl⟩
where
  enter {σ : State V} (hσ : Sound I a σ) : Sound I a.enter σ :=
    hσ.mono (Scope.apart_enter hσ.apart) fun hk => ⟨Scope.binds_enter.mp hk, rfl⟩

/-- What an arm writes is forgotten after it. -/
theorem forget (h : Walked I around names m m' a b) (hlower : ∀ k ∈ names, Text.lower k = k) :
    Settled I names m m' a (names.foldl Scope.delete b) where
  apart ha := Scope.apart_foldl_delete (h.apart ha)
  binds ha k v hk := by
    obtain ⟨hk, hne⟩ := Scope.binds_foldl_delete.mp hk
    have hnames : k ∉ names := fun hmem => hne k hmem (hlower k hmem).symm
    exact ⟨(h.binds ha hk).resolve_right fun hk => hnames hk.1, hnames⟩
  frame := h.frame
  same := h.same

/-! ### Loops -/

/-- In a loop nothing that the loop writes gets a value. -/
theorem binds_inLoop {k : String} {v : Value} (h : Walked I (around.inLoop names) ns m m' a b)
    (hsub : ns ⊆ names) (ha : a.Apart) (hk : b.Binds k v) : a.Binds k v :=
  (h.binds ha hk).resolve_right fun ⟨hmem, htrack⟩ => by
    simp [Surroundings.mayTrack, Surroundings.excludes, Surroundings.inLoop, hsub hmem] at htrack

/-- A part of a loop does the same in every round, as nothing is bound that the loop writes. -/
theorem relates_inLoop {P : State V → Prop} (h : Walked I (around.inLoop names) ns m m' a b)
    (hsub : ns ⊆ names) (hsound : ∀ {σ}, P σ → Sound I a σ)
    (hkeep : ∀ {σ τ}, P σ → (∀ k ∉ names, τ.store k = σ.store k) → P τ) :
    Relates (fun σ σ' => σ' = σ ∧ P σ) m m' := by
  rintro σ _ ⟨rfl, hσ⟩
  rw [h.same (hsound hσ)]
  exact ⟨rfl, rfl, hkeep hσ fun k hk => h.frame fun hmem => hk (hsub hmem)⟩

theorem frame_inLoop {k : String} {w : V} (h : Walked I (around.inLoop names) ns m m' a b)
    (hsub : ns ⊆ names) (hk : k ∉ names) : Relates (fun σ σ' => σ' = σ ∧ σ.store k = w) m m := by
  rintro σ _ ⟨rfl, hσ⟩
  exact ⟨rfl, rfl, (h.frame fun hmem => hk (hsub hmem)).trans hσ⟩

theorem loop {L : (State V → Bool) → Run V → Run V → Run V} {c c' : State V → Bool}
    {ms : List String} (hL : IsLoop L) (hclear : ∀ {k v}, a.Binds k v → k ∉ names)
    (hc : ∀ {σ}, Sound I a σ → c' σ = c σ) (hms : ms ⊆ names) (hns : ns ⊆ names)
    (hm : Walked I (around.inLoop names) ms m m' a b)
    (hn : Walked I (around.inLoop names) ns n n' b d) :
    Settled I names (L c m n) (L c' m' n') a d where
  apart h := hn.apart (hm.apart h)
  binds h _ _ hk := by
    have ha := hm.binds_inLoop hms h (hn.binds_inLoop hns (hm.apart h) hk)
    exact ⟨ha, hclear ha⟩
  frame {σ k} hk := by
    have hloop : Relates (fun σ' σ'' => σ'' = σ' ∧ σ'.store k = σ.store k) (L c m n) (L c m n) :=
      hL (by rintro _ _ ⟨rfl, -⟩; rfl) (hm.frame_inLoop hms hk) (hn.frame_inLoop hns hk)
    exact (hloop σ σ ⟨rfl, rfl⟩).2.2
  same {σ} hσ := by
    have hkeep {σ τ : State V} (hσ : Sound I a σ) (h : ∀ k ∉ names, τ.store k = σ.store k) :
        Sound I a τ := hσ.mono hσ.apart fun hk => ⟨hk, h _ (hclear hk)⟩
    have hnext {σ : State V} (hσ : Sound I a σ) : Sound I b σ :=
      hσ.mono (hm.apart hσ.apart) fun hk => ⟨hm.binds_inLoop hms hσ.apart hk, rfl⟩
    have hloop : Relates (fun σ σ' => σ' = σ ∧ Sound I a σ) (L c m n) (L c' m' n') :=
      hL (by rintro σ _ ⟨rfl, hσ⟩; exact (hc hσ).symm) (hm.relates_inLoop hms id hkeep)
        (hn.relates_inLoop hns hnext hkeep)
    obtain ⟨hending, hstate, -⟩ := hloop σ σ ⟨rfl, hσ⟩
    exact Prod.ext hending.symm hstate

end Walked

end Unscramble.Scripts
