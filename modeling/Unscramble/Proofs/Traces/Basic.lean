import Unscramble.Value.Basic

/-! What happens to variables while a script runs: a trace of reads and writes, and the runs that
the constructs of a script allow as operations on sets of traces. A run need not come to its end,
so that a part of a script may be abandoned anywhere. -/
namespace Unscramble.Traces

/-- Where a node stands: the child to go to at each node on the way from the root. -/
abbrev Address := List Nat

/-- A read of the variable at some place, or a write of a name. A plain assignment of a literal
says which value it writes. -/
inductive Event where
  | read (place : Address)
  | write (name : String) (literal : Option Value)
  deriving DecidableEq

inductive Ending where
  | done
  | abandoned
  deriving DecidableEq

/-- The traces that are possible, with the ways in which they end. -/
abbrev Runs := List Event → Ending → Prop

namespace Runs

/-- All of the events, or some first ones of them. -/
def emits (events : List Event) : Runs := fun trace ending =>
  trace <+: events ∧ (ending = .done → trace = events)

def nothing : Runs := emits []

def either (a b : Runs) : Runs := fun trace ending => a trace ending ∨ b trace ending

def both (a b : Runs) : Runs := fun trace ending =>
  (a trace .abandoned ∧ ending = .abandoned) ∨
    ∃ u v, trace = u ++ v ∧ a u .done ∧ b v ending

def optional (a : Runs) : Runs := either a nothing

/-- A part that may be left out or abandoned while what comes after it is run. -/
def attempt (a : Runs) : Runs := fun trace _ => trace = [] ∨ ∃ ending, a trace ending

/-- Any number of rounds. An abandoned round may be the last one or not. -/
inductive repeated (a : Runs) : Runs
  | stop {ending} : repeated a [] ending
  | round {u v ending ending'} : a u ending → repeated a v ending' → repeated a (u ++ v) ending'

end Runs

/-! ### Events of runs -/

/-- Something holds of every event in every run. -/
def Every (P : Event → Prop) (a : Runs) : Prop :=
  ∀ trace ending, a trace ending → ∀ event ∈ trace, P event

namespace Every
variable {P Q : Event → Prop} {a b : Runs}

theorem imp (h : ∀ event, P event → Q event) (ha : Every P a) : Every Q a :=
  fun trace ending hrun event hmem => h event (ha trace ending hrun event hmem)

theorem emits {events : List Event} (h : ∀ event ∈ events, P event) : Every P (.emits events) :=
  fun _ _ hrun event hmem => h event (hrun.1.subset hmem)

theorem nothing : Every P .nothing := emits (by simp)

theorem either (ha : Every P a) (hb : Every P b) : Every P (a.either b)
  | _, _, .inl h => ha _ _ h
  | _, _, .inr h => hb _ _ h

theorem both (ha : Every P a) (hb : Every P b) : Every P (a.both b) := by
  rintro trace ending (⟨h, -⟩ | ⟨u, v, rfl, hu, hv⟩) event hmem
  · exact ha _ _ h event hmem
  · exact (List.mem_append.mp hmem).elim (ha _ _ hu event) (hb _ _ hv event)

theorem optional (ha : Every P a) : Every P a.optional := ha.either nothing

theorem attempt (ha : Every P a) : Every P a.attempt := by
  rintro trace ending (rfl | ⟨ending', h⟩) event hmem
  · cases hmem
  · exact ha _ _ h event hmem

theorem repeated (ha : Every P a) : Every P a.repeated := by
  intro trace ending h
  induction h with
  | stop => simp
  | round hu _ ih => exact fun event hmem => (List.mem_append.mp hmem).elim (ha _ _ hu event) (ih event)

end Every

/-! ### The last write -/

/-- What is known of the last write of a name: nothing if there was none, otherwise the literal if
it was a plain assignment of one. -/
abbrev Latest := Option (Option Value)

variable {x : String} {s : Latest}

def Event.step (x : String) (s : Latest) : Event → Latest
  | .write name literal => if name = x then some literal else s
  | .read _ => s

def after (x : String) (s : Latest) (trace : List Event) : Latest := trace.foldl (Event.step x) s

/-- The last write of a name in a trace. -/
def lastWrite (x : String) (trace : List Event) : Latest := after x none trace

@[simp] theorem after_nil : after x s [] = s := rfl

theorem after_append (u v : List Event) : after x s (u ++ v) = after x (after x s u) v :=
  List.foldl_append ..

def Event.isWriteOf (x : String) : Event → Prop
  | .write name _ => name = x
  | .read _ => False

theorem after_eq_of_forall {trace : List Event} (h : ∀ event ∈ trace, ¬ event.isWriteOf x) :
    after x s trace = s := by
  induction trace generalizing s with
  | nil => rfl
  | cons event trace ih =>
    obtain ⟨hevent, htrace⟩ := List.forall_mem_cons.mp h
    have hstep : event.step x s = s := by
      cases event with
      | read => rfl
      | write name => exact if_neg hevent
    rw [after, List.foldl_cons, hstep]
    exact ih htrace

/-- What was written last was written somewhere, and not again after that. -/
theorem exists_write_of_after {trace : List Event} {v : Value} (h : after x s trace = some (some v)) :
    (s = some (some v) ∧ ∀ event ∈ trace, ¬ event.isWriteOf x) ∨
    ∃ earlier later, trace = earlier ++ .write x (some v) :: later ∧
      ∀ event ∈ later, ¬ event.isWriteOf x := by
  induction trace generalizing s with
  | nil => exact .inl ⟨h, by simp⟩
  | cons event trace ih =>
    rcases ih (s := event.step x s) h with ⟨hstep, hrest⟩ | ⟨earlier, later, rfl, hlater⟩
    · by_cases hevent : event.isWriteOf x
      · cases event with
        | read => exact hevent.elim
        | write name literal =>
          obtain rfl : name = x := hevent
          rw [Event.step, if_pos rfl, Option.some.injEq] at hstep
          exact .inr ⟨[], trace, by rw [hstep, List.nil_append], hrest⟩
      · have hsame : after x s [event] = s := after_eq_of_forall (by simpa using hevent)
        exact .inl ⟨hsame ▸ hstep, List.forall_mem_cons.mpr ⟨hevent, hrest⟩⟩
    · exact .inr ⟨event :: earlier, later, rfl, hlater⟩

/-- No run writes a name. -/
abbrev Spares (x : String) (a : Runs) : Prop := Every (fun event => ¬ event.isWriteOf x) a

theorem Spares.after_eq {a : Runs} (h : Spares x a) {trace ending} (hrun : a trace ending) :
    after x s trace = s := after_eq_of_forall (h trace ending hrun)

/-! ### Reads -/

/-- Something holds of every read in a trace and of the last write before it. -/
def Reads (x : String) (P : Address → Latest → Prop) (s : Latest) (trace : List Event) : Prop :=
  ∀ before p rest, trace = before ++ .read p :: rest → P p (after x s before)

namespace Reads
variable {P : Address → Latest → Prop} {u v : List Event}

theorem append (hu : Reads x P s u) (hv : Reads x P (after x s u) v) : Reads x P s (u ++ v) := by
  intro before p rest h
  rcases List.append_eq_append_iff.mp h with ⟨w, rfl, hw⟩ | ⟨w, rfl, hw⟩
  · rw [after_append]
    exact hv w p rest hw
  · cases w with
    | nil =>
      have hp := hv [] p rest (by simpa using hw.symm)
      simpa using hp
    | cons event w =>
      obtain ⟨rfl, rfl⟩ := List.cons.inj hw
      exact hu before p w rfl

theorem of_forall {trace : List Event} (h : ∀ p, .read p ∈ trace → ∀ s, P p s) :
    Reads x P s trace := by
  rintro before p rest rfl
  exact h p (by simp) _

end Reads
end Unscramble.Traces
