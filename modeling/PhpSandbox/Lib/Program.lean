import PhpSandbox.Lib.Runs
import Mathlib.Logic.Function.Basic

/-!
# Programs that ask their surroundings

A program that talks to a database, reads a clock or sends a message is a tree of
questions: it ends, fails, or asks a question and goes on with the answer. The same
tree can then be run against surroundings with a state (`Program.run`), or as one of
several that take turns on a shared state (`Pool.step`).

What a program asks is stated without any surroundings, by `Program.Meets`: every
question meets its specification, given what was asked and answered before, and so
does the result. `Program.run_of_meets` says what follows for a run, and
`Pool.Meets.step_cases` for a turn of one of several programs. `Program.Yields` says
with which exchanges a program can end, and `Program.yields_exchanges` that a run is
one of these ways.
-/

namespace PhpSandbox.Lib

universe u

/-- A program with results in `α` that asks questions `q : Q`, answered in `A q`, and may fail. -/
inductive Program (ε Q : Type u) (A : Q → Type u) (α : Type u) where
  /-- The program ends. -/
  | ret (a : α)
  /-- The program fails. -/
  | fail (e : ε)
  /-- The program asks `q` and goes on. -/
  | ask (q : Q) (k : A q → Program ε Q A α)

namespace Program

variable {ε Q : Type u} {A : Q → Type u} {α β : Type u}

/-- One program after the other. -/
def bind : Program ε Q A α → (α → Program ε Q A β) → Program ε Q A β
  | ret a, f => f a
  | fail e, _ => fail e
  | ask q k, f => ask q fun a => (k a).bind f

instance : Monad (Program ε Q A) where
  pure := ret
  bind := bind

/-- The program that has this result already. -/
def ofExcept : Except ε α → Program ε Q A α
  | .ok a => ret a
  | .error e => fail e

@[simp] theorem ret_bind (a : α) (f : α → Program ε Q A β) : ret a >>= f = f a := rfl

@[simp] theorem fail_bind (e : ε) (f : α → Program ε Q A β) : fail e >>= f = fail e := rfl

@[simp] theorem ask_bind (q : Q) (k : A q → Program ε Q A α) (f : α → Program ε Q A β) :
    ask q k >>= f = ask q fun a => k a >>= f := rfl

-- a program is taken apart by these equations, never by running it in the unifier
attribute [irreducible] bind

/-! ### What a program asks -/

/-- A question and its answer. -/
abbrev Exchange (Q : Type u) (A : Q → Type u) := (q : Q) × A q

/-- After the exchanges `h`, every question of the program meets `spec`, whatever the answers are,
and its result meets `post`. -/
def Meets (spec : List (Exchange Q A) → Q → Prop) (post : List (Exchange Q A) → α → Prop) :
    List (Exchange Q A) → Program ε Q A α → Prop
  | h, ret a => post h a
  | _, fail _ => True
  | h, ask q k => spec h q ∧ ∀ a, Meets spec post (h ++ [⟨q, a⟩]) (k a)

variable {spec : List (Exchange Q A) → Q → Prop} {post : List (Exchange Q A) → α → Prop}
  {h : List (Exchange Q A)}

@[simp] theorem meets_ret_iff {a : α} : (ret a : Program ε Q A α).Meets spec post h ↔ post h a := Iff.rfl

@[simp] theorem meets_fail (e : ε) : (fail e : Program ε Q A α).Meets spec post h := trivial

@[simp] theorem meets_ask_iff {q : Q} {k : A q → Program ε Q A α} :
    (ask q k).Meets spec post h ↔ spec h q ∧ ∀ a, (k a).Meets spec post (h ++ [⟨q, a⟩]) := Iff.rfl

variable {f : β → Program ε Q A α} {p : Program ε Q A α}

theorem meets_bind_iff {p : Program ε Q A β} :
    (p >>= f).Meets spec post h ↔ p.Meets spec (fun h b => (f b).Meets spec post h) h := by
  induction p generalizing h with
  | ret a => rw [ret_bind, meets_ret_iff]
  | fail e => rw [fail_bind, iff_true_left (meets_fail e)]; exact meets_fail e
  | ask q k ih =>
    rw [ask_bind, meets_ask_iff, meets_ask_iff]
    exact and_congr_right fun _ => forall_congr' fun a => ih a

variable {post' : List (Exchange Q A) → α → Prop} {spec' : List (Exchange Q A) → Q → Prop}

/-- What every question preserves of the exchanges can be used for the specification and the result. -/
theorem Meets.carry {J : List (Exchange Q A) → Prop} (hp : p.Meets spec post h) (hJ : J h)
    (hstep : ∀ h q a, J h → spec h q → J (h ++ [⟨q, a⟩])) (hspec : ∀ h q, J h → spec h q → spec' h q)
    (hpost : ∀ h a, J h → post h a → post' h a) : p.Meets spec' post' h := by
  induction p generalizing h with
  | ret a => exact hpost h a hJ hp
  | fail e => trivial
  | ask q k ih => exact ⟨hspec h q hJ hp.1, fun a => ih a (hp.2 a) (hstep h q a hJ hp.1)⟩

/-- A weaker specification of the questions and of the result. -/
theorem Meets.mono
    (hp : p.Meets spec post h) (hspec : ∀ h q, spec h q → spec' h q) (hpost : ∀ h a, post h a → post' h a) :
    p.Meets spec' post' h :=
  hp.carry (J := fun _ => True) trivial (fun _ _ _ _ _ => trivial) (fun h q _ => hspec h q) fun h a _ => hpost h a

/-- All questions of the program are of one kind. -/
def Only (kind : Q → Prop) (p : Program ε Q A α) : Prop :=
  ∀ h, p.Meets (fun _ q => kind q) (fun _ _ => True) h

variable {kind : Q → Prop}

theorem only_ret (a : α) : (ret a : Program ε Q A α).Only kind := fun _ => trivial

theorem only_fail (e : ε) : (fail e : Program ε Q A α).Only kind := fun _ => trivial

theorem only_ask {q : Q} {k : A q → Program ε Q A α} (hq : kind q) (hk : ∀ a, (k a).Only kind) :
    (ask q k).Only kind := fun _ => ⟨hq, fun a => hk a _⟩

theorem only_ofExcept (r : Except ε α) : (ofExcept r : Program ε Q A α).Only kind := by
  cases r with
  | ok a => exact only_ret a
  | error e => exact only_fail e

theorem Only.mono {kind' : Q → Prop} (hp : p.Only kind) (h : ∀ q, kind q → kind' q) :
    p.Only kind' := fun h' => (hp h').mono (fun _ q => h q) fun _ _ => id

theorem Only.bind {p : Program ε Q A β} (hp : p.Only kind) (hf : ∀ b, (f b).Only kind) : (p >>= f).Only kind := by
  intro h
  exact meets_bind_iff.mpr ((hp h).mono (fun _ _ hq => hq) fun h b _ => hf b h)

/-- The result of a program, changed. -/
theorem Only.then_ret {p : Program ε Q A β} (hp : p.Only kind) {f : β → α} : (p >>= fun b => ret (f b)).Only kind :=
  hp.bind fun b => only_ret (f b)

/-! ### A run -/

section Run

variable {σ : Type*} (answer : σ → (q : Q) → A q × σ)

/-- The program in surroundings with a state: how it ends, and the state then. -/
def run : σ → Program ε Q A α → Except ε α × σ
  | s, ret a => (.ok a, s)
  | s, fail e => (.error e, s)
  | s, ask q k => run (answer s q).2 (k (answer s q).1)

variable {answer} {s : σ}

@[simp] theorem run_ask (q : Q) (k : A q → Program ε Q A α) :
    run answer s (ask q k) = run answer (answer s q).2 (k (answer s q).1) := rfl

/-- A program that ends is followed by the next one. -/
theorem run_bind_of_ok {p : Program ε Q A β} {b : β} {s' : σ} (h : run answer s p = (.ok b, s')) :
    run answer s (p >>= f) = run answer s' (f b) := by
  induction p generalizing s with
  | ret a =>
    cases h
    rw [ret_bind]
  | fail e => cases h
  | ask q k ih =>
    rw [ask_bind, run_ask]
    exact ih _ h

/-- **The rule for a run**: what every question that meets the specification preserves, of the state
and the exchanges so far, holds at the end, with the postcondition of the result. -/
theorem run_of_meets {I : σ → List (Exchange Q A) → Prop}
    (hstep : ∀ s h q, I s h → spec h q → I (answer s q).2 (h ++ [⟨q, (answer s q).1⟩])) (hp : p.Meets spec post h)
    (hs : I s h) : ∃ h', I (run answer s p).2 h' ∧ ∀ a, (run answer s p).1 = .ok a → post h' a := by
  induction p generalizing s h with
  | ret a =>
    refine ⟨h, hs, ?_⟩
    rintro _ ⟨⟩
    exact hp
  | fail e =>
    refine ⟨h, hs, ?_⟩
    rintro _ ⟨⟩
  | ask q k ih => exact ih _ (hp.2 _) (hstep s h q hs hp.1)

/-- The rule for an invariant of the state alone, kept by the questions of one kind. -/
theorem run_of_only {I : σ → Prop} (hstep : ∀ s q, I s → kind q → I (answer s q).2) (hp : p.Only kind) (hs : I s) :
    I (run answer s p).2 := by
  obtain ⟨_, hI, -⟩ := run_of_meets (I := fun s _ => I s) (fun s _ q => hstep s q) (hp []) hs
  exact hI

end Run

/-! ### What a run exchanges -/

/-- The program can end with `b` after just these exchanges. -/
def Yields : Program ε Q A α → List (Exchange Q A) → α → Prop
  | ret a, d, b => d = [] ∧ b = a
  | fail _, _, _ => False
  | ask q k, d, b => ∃ a d', d = ⟨q, a⟩ :: d' ∧ (k a).Yields d' b

variable {d : List (Exchange Q A)}

@[simp] theorem yields_fail_iff {e : ε} {b : α} : (fail e : Program ε Q A α).Yields d b ↔ False := Iff.rfl

/-- The exchanges of one program after the other. -/
theorem yields_bind_iff {p : Program ε Q A β} {b : α} :
    (p >>= f).Yields d b ↔ ∃ d₁ a d₂, d = d₁ ++ d₂ ∧ p.Yields d₁ a ∧ (f a).Yields d₂ b := by
  induction p generalizing d with
  | ret a =>
    rw [ret_bind]
    constructor
    · intro h
      exact ⟨[], a, d, rfl, ⟨rfl, rfl⟩, h⟩
    · rintro ⟨_, _, d₂, rfl, ⟨rfl, rfl⟩, h⟩
      exact h
  | fail e =>
    rw [fail_bind]
    constructor
    · rintro ⟨⟩
    · rintro ⟨_, _, _, _, ⟨⟩, _⟩
  | ask q k ih =>
    rw [ask_bind]
    constructor
    · rintro ⟨c, d', rfl, h⟩
      obtain ⟨d₁, a, d₂, rfl, hp, hf⟩ := (ih c).mp h
      exact ⟨⟨q, c⟩ :: d₁, a, d₂, rfl, ⟨c, d₁, rfl, hp⟩, hf⟩
    · rintro ⟨_, a, d₂, rfl, ⟨c, d₁, rfl, hp⟩, hf⟩
      exact ⟨c, d₁ ++ d₂, rfl, (ih c).mpr ⟨d₁, a, d₂, rfl, hp, hf⟩⟩

/-- The exchanges of a program whose questions are all of one kind. -/
theorem Yields.of_only {b : α} (hp : p.Only kind) (hd : p.Yields d b) : ∀ e ∈ d, kind e.1 := by
  suffices ∀ h, p.Meets (fun _ q => kind q) (fun _ _ => True) h → ∀ e ∈ d, kind e.1 from this [] (hp [])
  clear hp
  induction p generalizing d with
  | ret a =>
    rw [hd.1]
    nofun
  | fail e => exact hd.elim
  | ask q k ih =>
    obtain ⟨a, d', rfl, hd⟩ := hd
    rintro h ⟨hq, hk⟩ e he
    rcases List.mem_cons.mp he with rfl | he
    · exact hq
    · exact ih a hd _ (hk a) e he

section Exchanges

variable {σ : Type*} (answer : σ → (q : Q) → A q × σ)

/-- What a run exchanges. -/
def exchanges : σ → Program ε Q A α → List (Exchange Q A)
  | _, ret _ | _, fail _ => []
  | s, ask q k => ⟨q, (answer s q).1⟩ :: exchanges (answer s q).2 (k (answer s q).1)

variable {answer} {s : σ}

/-- A run that ends is one of the ways in which the program can end. -/
theorem yields_exchanges {a : α} (h : (run answer s p).1 = .ok a) : p.Yields (exchanges answer s p) a := by
  induction p generalizing s with
  | ret b =>
    cases h
    exact ⟨rfl, rfl⟩
  | fail e => cases h
  | ask q k ih => exact ⟨_, _, rfl, ih _ h⟩

/-- What is a function of the exchanges, one after the other, is so over a run. -/
theorem foldl_exchanges {τ : Type*} {f : τ → Exchange Q A → τ} {g : σ → τ}
    (hstep : ∀ s q, g (answer s q).2 = f (g s) ⟨q, (answer s q).1⟩) (p : Program ε Q A α) :
    g (run answer s p).2 = (exchanges answer s p).foldl f (g s) := by
  induction p generalizing s with
  | ret b | fail e => rfl
  | ask q k ih =>
    rw [run_ask, ih, hstep]
    rfl

end Exchanges

end Program

/-! ### Several programs at once -/

/-- Programs that take turns on a shared state, with what each of them has exchanged. -/
structure Pool (ι ε Q : Type u) (A : Q → Type u) (α σ : Type u) where
  /-- What is left of each program. -/
  progs : ι → Program ε Q A α
  /-- What each program has asked, and what it was answered. -/
  history : ι → List (Program.Exchange Q A)
  /-- The shared state. -/
  shared : σ

namespace Pool

variable {ι ε Q : Type u} {A : Q → Type u} {α σ : Type u} {χ : Type*} [DecidableEq ι]
  (answer : χ → σ → (q : Q) → A q × σ)

/-- The programs before their first question. -/
def start (progs : ι → Program ε Q A α) (shared : σ) : Pool ι ε Q A α σ := ⟨progs, fun _ => [], shared⟩

variable (s : Pool ι ε Q A α σ)

/-- One program asks its next question, which is answered as `c` chooses. -/
def step (a : ι × χ) : Pool ι ε Q A α σ :=
  match s.progs a.1 with
  | .ask q k =>
    let r := answer a.2 s.shared q
    ⟨Function.update s.progs a.1 (k r.1), Function.update s.history a.1 (s.history a.1 ++ [⟨q, r.1⟩]), r.2⟩
  | .ret _ | .fail _ => s

/-- What a program asks next, if it has not ended. -/
def next (i : ι) : Option Q :=
  match s.progs i with
  | .ask q _ => some q
  | .ret _ | .fail _ => none

/-- Every program meets its specification from here on. -/
def Meets (spec : ι → List (Program.Exchange Q A) → Q → Prop) (s : Pool ι ε Q A α σ) : Prop :=
  ∀ i, (s.progs i).Meets (spec i) (fun _ _ => True) (s.history i)

variable {spec : ι → List (Program.Exchange Q A) → Q → Prop} {s : Pool ι ε Q A α σ}

/-- **One step**: nothing, if the program has ended; else a question that meets the specification, and its
answer. -/
theorem Meets.step_cases (h : s.Meets spec) (i : ι) (c : χ) :
    (s.next i = none ∧ s.step answer (i, c) = s) ∨
      ∃ q k, s.next i = some q ∧ spec i (s.history i) q ∧ s.step answer (i, c) =
        ⟨Function.update s.progs i k,
          Function.update s.history i (s.history i ++ [⟨q, (answer c s.shared q).1⟩]),
          (answer c s.shared q).2⟩ ∧
        k.Meets (spec i) (fun _ _ => True) (s.history i ++ [⟨q, (answer c s.shared q).1⟩]) := by
  have hi := h i
  unfold step next
  cases hp : s.progs i with
  | ret a | fail e => exact .inl ⟨rfl, rfl⟩
  | ask q k =>
    rw [hp] at hi
    exact .inr ⟨q, _, rfl, hi.1, rfl, hi.2 _⟩

/-- The programs keep to their specification. -/
theorem Meets.step (h : s.Meets spec) (a : ι × χ) : (s.step answer a).Meets spec := by
  obtain ⟨i, c⟩ := a
  rcases h.step_cases answer i c with ⟨-, heq⟩ | ⟨q, k, -, -, heq, hk⟩
  · rw [heq]
    exact h
  rw [heq]
  intro j
  by_cases hj : j = i
  · subst hj
    simpa only [Function.update_self] using hk
  · simpa only [Function.update_of_ne hj] using h j

end Pool

end PhpSandbox.Lib
