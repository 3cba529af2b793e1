/-
Programs that ask their surroundings, run among others.

A `Prog` is a tree of requests: it is done, it has failed, or it asks something
and continues with the reply.  What a request does is not part of the program;
a state `σ`, the moves `act` of the others and the answers `sem` are given when
it is run.
-/
import Mathlib.Algebra.GroupWithZero.Nat
import Mathlib.Data.List.Basic
import Mathlib.Logic.Relation

open List

namespace Programs

/-- A program with requests `e : ε`, answers `R e`, failures `φ` and results `α`. -/
inductive Prog (ε : Type) (R : ε → Type) (φ : Type) (α : Type) : Type
  | done (a : α)
  | fail (f : φ)
  | call (e : ε) (k : Except φ (R e) → Prog ε R φ α)

namespace Prog

variable {ε : Type} {R : ε → Type} {φ α β : Type}

def bind : Prog ε R φ α → (α → Prog ε R φ β) → Prog ε R φ β
  | .done a, f => f a
  | .fail e, _ => .fail e
  | .call e k, f => .call e fun r => (k r).bind f

instance : Monad (Prog ε R φ) where
  pure := .done
  bind := bind

def request (e : ε) : Prog ε R φ (R e) :=
  .call e fun
    | .ok a => .done a
    | .error f => .fail f

def attempt : Prog ε R φ α → Prog ε R φ (Except φ α)
  | .done a => .done (.ok a)
  | .fail f => .done (.error f)
  | .call e k => .call e fun r => (k r).attempt

def ofExcept : Except φ α → Prog ε R φ α
  | .ok a => .done a
  | .error f => .fail f

@[simp] lemma pure_eq (a : α) : (pure a : Prog ε R φ α) = .done a := rfl

@[simp] lemma done_bind (a : α) (f : α → Prog ε R φ β) : (Prog.done a >>= f) = f a := rfl

@[simp] lemma fail_bind (e : φ) (f : α → Prog ε R φ β) : (Prog.fail e >>= f) = .fail e := rfl

end Prog

/-! ### Runs among others -/

/-- One thing that happened: a move of the others, or a request and its reply. -/
inductive Event (σ : Type) (ε : Type) (R : ε → Type) (φ : Type) (μ : Type)
  | move (m : μ) (before after : σ)
  | own (e : ε) (reply : Except φ (R e)) (before after : σ)

/-- A run: what happened, the state it ends in, and its result unless it was cut off. -/
structure Run (σ : Type) (ε : Type) (R : ε → Type) (φ : Type) (μ : Type) (α : Type) where
  trace : List (Event σ ε R φ μ)
  final : σ
  result : Option (Except φ α)

variable {σ ε φ μ ι α β : Type} {R : ε → Type}

section exec

variable (act : μ → σ → σ) (sem : ι → (e : ε) → σ → σ × Except φ (R e))

def moves (s : σ) : List μ → List (Event σ ε R φ μ)
  | [] => []
  | m :: ms => .move m s (act m s) :: moves (act m s) ms

def moved (s : σ) (ms : List μ) : σ := ms.foldl (fun s m => act m s) s

/-- Run a program against a schedule: for each request the moves that come
before it and its fate. -/
def exec : Prog ε R φ α → σ → List (List μ × ι) → Run σ ε R φ μ α
  | .done a, s, _ => ⟨[], s, some (.ok a)⟩
  | .fail f, s, _ => ⟨[], s, some (.error f)⟩
  | .call _ _, s, [] => ⟨[], s, none⟩
  | .call e k, s, (ms, i) :: sched =>
    let t := moved act s ms
    let rest := exec (k (sem i e t).2) (sem i e t).1 sched
    ⟨moves act s ms ++ .own e (sem i e t).2 t (sem i e t).1 :: rest.trace, rest.final,
      rest.result⟩

inductive Linked : σ → List (Event σ ε R φ μ) → σ → Prop
  | nil (s : σ) : Linked s [] s
  | move {s t : σ} {tr : List (Event σ ε R φ μ)} (m : μ) (h : Linked (act m s) tr t) :
      Linked s (.move m s (act m s) :: tr) t
  | own {s t : σ} {tr : List (Event σ ε R φ μ)} (i : ι) (e : ε)
      (h : Linked (sem i e s).1 tr t) :
      Linked s (.own e (sem i e s).2 s (sem i e s).1 :: tr) t

end exec

variable {act : μ → σ → σ} {sem : ι → (e : ε) → σ → σ × Except φ (R e)} {s t u : σ}
  {tr tr' : List (Event σ ε R φ μ)}

lemma Linked.append (h : Linked act sem s tr t) (h' : Linked act sem t tr' u) :
    Linked act sem s (tr ++ tr') u := by
  induction h with
  | nil s => exact h'
  | move m _ ih => exact .move m (ih h')
  | own i e _ ih => exact .own i e (ih h')

lemma linked_append :
    Linked act sem s (tr ++ tr') u ↔ ∃ t, Linked act sem s tr t ∧ Linked act sem t tr' u := by
  constructor
  · intro h
    induction tr generalizing s with
    | nil => exact ⟨s, .nil s, h⟩
    | cons ev tr ih =>
      rw [cons_append] at h
      cases h with
      | move m h =>
        obtain ⟨t, h₁, h₂⟩ := ih h
        exact ⟨t, .move m h₁, h₂⟩
      | own i e h =>
        obtain ⟨t, h₁, h₂⟩ := ih h
        exact ⟨t, .own i e h₁, h₂⟩
  · rintro ⟨t, h₁, h₂⟩
    exact h₁.append h₂

lemma moves_linked (s : σ) (ms : List μ) :
    Linked act sem s (moves act s ms) (moved act s ms) := by
  induction ms generalizing s with
  | nil => exact .nil s
  | cons m ms ih => exact .move m (ih (act m s))

lemma exec_linked (p : Prog ε R φ α) (s : σ) (sched : List (List μ × ι)) :
    Linked act sem s (exec act sem p s sched).trace (exec act sem p s sched).final := by
  induction p generalizing s sched with
  | done a | fail f => exact .nil s
  | call e k ih =>
    cases sched with
    | nil => exact .nil s
    | cons slot sched => exact (moves_linked s slot.1).append (.own slot.2 e (ih _ _ _))

lemma Linked.own_head {e : ε} {r : Except φ (R e)} {a b : σ}
    (h : Linked act sem s (.own e r a b :: tr) t) :
    a = s ∧ ∃ i, b = (sem i e s).1 ∧ r = (sem i e s).2 ∧ Linked act sem b tr t := by
  cases h with
  | own i _ h => exact ⟨rfl, i, rfl, rfl, h⟩

lemma Linked.of_mem {e : ε} {r : Except φ (R e)} {a b : σ} (h : Linked act sem s tr t)
    (hmem : .own e r a b ∈ tr) : ∃ i tr₁ tr₂, Linked act sem s tr₁ a ∧ b = (sem i e a).1 ∧
      r = (sem i e a).2 ∧ Linked act sem b tr₂ t := by
  induction h with
  | nil s => cases hmem
  | move m _ ih =>
    rcases mem_cons.mp hmem with hmem | hmem
    · cases hmem
    · obtain ⟨i, tr₁, tr₂, h₁, hrest⟩ := ih hmem
      exact ⟨i, _, tr₂, .move m h₁, hrest⟩
  | own i e' htail ih =>
    rcases mem_cons.mp hmem with hmem | hmem
    · cases hmem
      exact ⟨i, [], _, .nil _, rfl, rfl, htail⟩
    · obtain ⟨i', tr₁, tr₂, h₁, hrest⟩ := ih hmem
      exact ⟨i', _, tr₂, .own i e' h₁, hrest⟩

lemma Linked.ordered {e e' : ε} {r : Except φ (R e)} {r' : Except φ (R e')} {a b a' b' : σ}
    (h : Linked act sem s tr t) (hmem : .own e r a b ∈ tr) (hmem' : .own e' r' a' b' ∈ tr)
    (hne : e ≠ e') : ∃ tr', Linked act sem b tr' a' ∨ Linked act sem b' tr' a := by
  induction h with
  | nil s => cases hmem
  | move m _ ih =>
    rcases mem_cons.mp hmem with hmem | hmem
    · cases hmem
    rcases mem_cons.mp hmem' with hmem' | hmem'
    · cases hmem'
    exact ih hmem hmem'
  | own i e₀ htail ih =>
    rcases mem_cons.mp hmem with hhead | hlater
    · cases hhead
      rcases mem_cons.mp hmem' with hhead' | hmem'
      · cases hhead'
        exact absurd rfl hne
      · obtain ⟨_, tr₁, _, h₁, -⟩ := htail.of_mem hmem'
        exact ⟨tr₁, .inl h₁⟩
    · rcases mem_cons.mp hmem' with hhead' | hmem'
      · cases hhead'
        obtain ⟨_, tr₁, _, h₁, -⟩ := htail.of_mem hlater
        exact ⟨tr₁, .inr h₁⟩
      · exact ih hlater hmem'

lemma Linked.rel {Rel : σ → σ → Prop} (hrefl : ∀ s, Rel s s)
    (htrans : ∀ s t u, Rel s t → Rel t u → Rel s u) (hact : ∀ m s, Rel s (act m s))
    (hsem : ∀ i e s, Rel s (sem i e s).1) (h : Linked act sem s tr t) : Rel s t := by
  induction h with
  | nil s => exact hrefl s
  | move m _ ih => exact htrans _ _ _ (hact m _) ih
  | own i e _ ih => exact htrans _ _ _ (hsem i e _) ih

/-- What every event of a trace keeps. -/
theorem Linked.kept {I : σ → Prop} (h : Linked act sem s tr t)
    (hmove : ∀ m a b, .move m a b ∈ tr → b = act m a → I a → I b)
    (hown : ∀ e r a b, .own e r a b ∈ tr → I a → I b) (hs : I s) : I t := by
  induction h with
  | nil s => exact hs
  | move m _ ih =>
    exact ih (fun m' a b hm => hmove m' a b (mem_cons_of_mem _ hm))
      (fun e r a b he => hown e r a b (mem_cons_of_mem _ he)) (hmove m _ _ mem_cons_self rfl hs)
  | own i e _ ih =>
    exact ih (fun m a b hm => hmove m a b (mem_cons_of_mem _ hm))
      (fun e r a b he => hown e r a b (mem_cons_of_mem _ he)) (hown e _ _ _ mem_cons_self hs)

def Event.after : Event σ ε R φ μ → σ
  | .move _ _ after => after
  | .own _ _ _ after => after

/-- The state after a trace from `s`. -/
def lastState (s : σ) : List (Event σ ε R φ μ) → σ
  | [] => s
  | ev :: tr => lastState ev.after tr

lemma Linked.lastState_eq (h : Linked act sem s tr t) : lastState s tr = t := by
  induction h with
  | nil s => rfl
  | move m _ ih | own i e _ ih => exact ih

def replies (tr : List (Event σ ε R φ μ)) : List (Σ e, Except φ (R e)) :=
  tr.filterMap fun
    | .move _ _ _ => none
    | .own e r _ _ => some ⟨e, r⟩

lemma mem_replies {e : ε} {r : Except φ (R e)} (h : ⟨e, r⟩ ∈ replies tr) :
    ∃ a b, .own e r a b ∈ tr := by
  obtain ⟨ev, hmem, hev⟩ := mem_filterMap.mp h
  cases ev with
  | move m a b => cases hev
  | own e' r' a b =>
    cases hev
    exact ⟨a, b, hmem⟩

lemma replies_eq_append_singleton {h : List (Σ e, Except φ (R e))} {e : ε}
    {r : Except φ (R e)} (hr : replies tr = h ++ [⟨e, r⟩]) :
    ∃ past a b rest, tr = past ++ .own e r a b :: rest ∧ replies rest = [] := by
  obtain ⟨past, tail, rfl, -, htail⟩ := filterMap_eq_append_iff.mp hr
  obtain ⟨moves, ev, rest, rfl, -, hev, hrest⟩ := filterMap_eq_cons_iff.mp htail
  cases ev with
  | move m a b => cases hev
  | own e' r' a b =>
    cases hev
    exact ⟨past ++ moves, a, b, rest, by rw [append_assoc], hrest⟩

@[simp] lemma replies_own (e : ε) (r : Except φ (R e)) (s t : σ) (tr : List (Event σ ε R φ μ)) :
    replies (.own e r s t :: tr) = ⟨e, r⟩ :: replies tr := rfl

/-! ### Pre- and postconditions over the replies -/

section meets

variable (V : (e : ε) → Except φ (R e) → Prop) (P : List (Σ e, Except φ (R e)) → ε → Prop)

/-- Whatever the replies are, as long as they are among `V`: every request of
the program meets `P`, given the replies before it, and the program ends in `Q`. -/
def Meets : Prog ε R φ α → List (Σ e, Except φ (R e)) →
    (List (Σ e, Except φ (R e)) → Except φ α → Prop) → Prop
  | .done a, h, Q => Q h (.ok a)
  | .fail f, h, Q => Q h (.error f)
  | .call e k, h, Q => P h e ∧ ∀ r, V e r → Meets (k r) (h ++ [⟨e, r⟩]) Q

variable {V P} {h h' : List (Σ e, Except φ (R e))}
  {Q Q' : List (Σ e, Except φ (R e)) → Except φ α → Prop}
  {S : List (Σ e, Except φ (R e)) → Except φ β → Prop}

lemma Meets.mono {p : Prog ε R φ α} (hp : Meets V P p h Q)
    (hQ : ∀ h' r, h <+: h' → Q h' r → Q' h' r) : Meets V P p h Q' := by
  induction p generalizing h with
  | done a | fail f => exact hQ h _ (prefix_refl h) hp
  | call e k ih =>
    refine ⟨hp.1, fun r hr => ih r (hp.2 r hr) fun h' r' hh => ?_⟩
    exact hQ h' r' ((prefix_append h _).trans hh)

lemma Meets.bind {p : Prog ε R φ α} {f : α → Prog ε R φ β} (hp : Meets V P p h Q)
    (hok : ∀ h' a, h <+: h' → Q h' (.ok a) → Meets V P (f a) h' S)
    (herr : ∀ h' e, h <+: h' → Q h' (.error e) → S h' (.error e)) :
    Meets V P (p >>= f) h S := by
  induction p generalizing h with
  | done a => exact hok h a (prefix_refl h) hp
  | fail e => exact herr h e (prefix_refl h) hp
  | call e k ih =>
    refine ⟨hp.1, fun r hr => ih r (hp.2 r hr) (fun h' a hh => ?_) fun h' e' hh => ?_⟩
    · exact hok h' a ((prefix_append h _).trans hh)
    · exact herr h' e' ((prefix_append h _).trans hh)

lemma meets_request {e : ε} {Q : List (Σ e, Except φ (R e)) → Except φ (R e) → Prop}
    (hP : P h e) (hQ : ∀ r, V e r → Q (h ++ [⟨e, r⟩]) r) : Meets V P (.request e) h Q := by
  refine ⟨hP, fun r hr => ?_⟩
  cases r with
  | ok a | error f => exact hQ _ hr

lemma Meets.attempt {p : Prog ε R φ α}
    {C : List (Σ e, Except φ (R e)) → Except φ (Except φ α) → Prop}
    (hp : Meets V P p h fun h' r => C h' (.ok r)) : Meets V P p.attempt h C := by
  induction p generalizing h with
  | done a | fail f => exact hp
  | call e k ih => exact ⟨hp.1, fun r hr => ih r (hp.2 r hr)⟩

def OnOk (Q : List (Σ e, Except φ (R e)) → α → Prop) :
    List (Σ e, Except φ (R e)) → Except φ α → Prop
  | h, .ok a => Q h a
  | _, .error _ => True

variable {T : List (Σ e, Except φ (R e)) → α → Prop} {U : List (Σ e, Except φ (R e)) → β → Prop}

lemma Meets.bindOk {p : Prog ε R φ α} {f : α → Prog ε R φ β} (hp : Meets V P p h (OnOk T))
    (hok : ∀ h' a, h <+: h' → T h' a → Meets V P (f a) h' (OnOk U)) :
    Meets V P (p >>= f) h (OnOk U) :=
  hp.bind hok fun _ _ _ _ => trivial

lemma meets_requestOk {e : ε} {T : List (Σ e, Except φ (R e)) → R e → Prop} (hP : P h e)
    (hT : ∀ a, V e (.ok a) → T (h ++ [⟨e, .ok a⟩]) a) : Meets V P (.request e) h (OnOk T) := by
  refine meets_request hP fun r hr => ?_
  cases r with
  | ok a => exact hT a hr
  | error f => trivial

lemma meets_ofExcept {r : Except φ α} (hT : ∀ a, r = .ok a → T h a) :
    Meets V P (.ofExcept r) h (OnOk T) := by
  cases r with
  | ok a => exact hT a rfl
  | error f => trivial

lemma Meets.attemptBind {p : Prog ε R φ α} {f : Except φ α → Prog ε R φ β}
    (hp : Meets V P p h Q) (hf : ∀ h' r, h <+: h' → Q h' r → Meets V P (f r) h' S) :
    Meets V P (p.attempt >>= f) h S := by
  have hcaught : Meets V P p.attempt h fun h' r => ∃ r', r = .ok r' ∧ Q h' r' :=
    (hp.mono fun h' r _ hr => ⟨r, rfl, hr⟩).attempt
  refine hcaught.bind ?_ ?_
  · rintro h' r hh ⟨r', heq, hr⟩
    cases heq
    exact hf h' r hh hr
  · rintro h' e hh ⟨r', heq, hr⟩
    cases heq

lemma meets_foldlM {γ : Type} {f : β → γ → Prog ε R φ β} {l : List γ}
    {I : List (Σ e, Except φ (R e)) → β → Prop} {b : β}
    (hround : ∀ c ∈ l, ∀ h' b, h <+: h' → I h' b → Meets V P (f b c) h' (OnOk I)) (hb : I h b) :
    Meets V P (l.foldlM f b) h (OnOk I) := by
  induction l generalizing h b with
  | nil => exact hb
  | cons c l ih =>
    rw [foldlM_cons]
    refine (hround c mem_cons_self h b (prefix_refl h) hb).bindOk ?_
    intro h' b' hh hb'
    refine ih (fun d hd h'' b'' hh' => ?_) hb'
    exact hround d (mem_cons_of_mem c hd) h'' b'' (hh.trans hh')

end meets

/-- Every request of a trace meets `P`, given the replies before it. -/
def Allowed (P : List (Σ e, Except φ (R e)) → ε → Prop) :
    List (Σ e, Except φ (R e)) → List (Event σ ε R φ μ) → Prop
  | _, [] => True
  | h, .move _ _ _ :: tr => Allowed P h tr
  | h, .own e r _ _ :: tr => P h e ∧ Allowed P (h ++ [⟨e, r⟩]) tr

variable {V : (e : ε) → Except φ (R e) → Prop} {P : List (Σ e, Except φ (R e)) → ε → Prop}
  {h : List (Σ e, Except φ (R e))}

lemma allowed_moves_append (s : σ) (ms : List μ) :
    Allowed P h (moves act s ms ++ tr) ↔ Allowed P h tr := by
  induction ms generalizing s with
  | nil => rfl
  | cons m ms ih => exact ih (act m s)

lemma exec_allowed {p : Prog ε R φ α} {Q : List (Σ e, Except φ (R e)) → Except φ α → Prop}
    (hV : ∀ i e s, V e (sem i e s).2) (hp : Meets V P p h Q) (s : σ)
    (sched : List (List μ × ι)) : Allowed P h (exec act sem p s sched).trace := by
  induction p generalizing h s sched with
  | done a | fail f => trivial
  | call e k ih =>
    cases sched with
    | nil => trivial
    | cons slot sched =>
      refine (allowed_moves_append s slot.1).mpr ⟨hp.1, ?_⟩
      exact ih _ (hp.2 _ (hV slot.2 e _)) _ _

lemma Allowed.at {e : ε} {r : Except φ (R e)}
    (hall : Allowed P h (tr ++ .own e r s t :: tr')) : P (h ++ replies tr) e := by
  induction tr generalizing h with
  | nil =>
    rw [show replies ([] : List (Event σ ε R φ μ)) = [] from rfl, append_nil]
    exact hall.1
  | cons ev tr ih =>
    cases ev with
    | move m a b => exact ih hall
    | own e' r' a b =>
      rw [replies_own, append_cons]
      exact ih hall.2

/-! ### Nobody else around -/

/-- Run a program with every request answered by `sem` and no other moves. -/
def alone (sem : (e : ε) → σ → σ × Except φ (R e)) : Prog ε R φ α → σ → σ × Except φ α
  | .done a, s => (s, .ok a)
  | .fail f, s => (s, .error f)
  | .call e k, s => alone sem (k (sem e s).2) (sem e s).1

section alone

variable {sem : (e : ε) → σ → σ × Except φ (R e)} {p : Prog ε R φ α} {f : α → Prog ε R φ β}

@[simp] lemma alone_done (a : α) : alone sem (.done a) s = (s, .ok a) := rfl

@[simp] lemma alone_fail (e : φ) : alone sem (.fail e : Prog ε R φ α) s = (s, .error e) := rfl

@[simp] lemma alone_request (e : ε) : alone sem (.request e) s = sem e s := by
  rw [Prog.request, alone]
  obtain ⟨t, r⟩ := sem e s
  cases r with
  | ok a => rfl
  | error e => rfl

lemma alone_bind : alone sem (p >>= f) s = match alone sem p s with
    | (t, .ok a) => alone sem (f a) t
    | (t, .error e) => (t, .error e) := by
  induction p generalizing s with
  | done a => rfl
  | fail e => rfl
  | call e k ih => exact ih _

lemma alone_bind_of_ok {a : α} (h : alone sem p s = (t, .ok a)) :
    alone sem (p >>= f) s = alone sem (f a) t := by
  rw [alone_bind, h]

lemma alone_bind_of_error {e : φ} (h : alone sem p s = (t, .error e)) :
    alone sem (p >>= f) s = (t, .error e) := by
  rw [alone_bind, h]

lemma alone_bind_ok {b : β} : alone sem (p >>= f) s = (u, .ok b) ↔
    ∃ t a, alone sem p s = (t, .ok a) ∧ alone sem (f a) t = (u, .ok b) := by
  rw [alone_bind]
  obtain ⟨t, r⟩ := alone sem p s
  cases r with
  | error e => simp
  | ok a => simp

@[simp] lemma alone_attempt :
    alone sem p.attempt s = ((alone sem p s).1, .ok (alone sem p s).2) := by
  induction p generalizing s with
  | done a => rfl
  | fail e => rfl
  | call e k ih => exact ih _

lemma alone_attempt_bind {f : Except φ α → Prog ε R φ β} {r : Except φ β} :
    alone sem (p.attempt >>= f) s = (u, r) ↔
      ∃ t a, alone sem p s = (t, a) ∧ alone sem (f a) t = (u, r) := by
  rw [alone_bind_of_ok alone_attempt]
  constructor
  · intro h
    exact ⟨_, _, rfl, h⟩
  · rintro ⟨t, a, hp, h⟩
    rw [hp]
    exact h

@[simp] lemma alone_ofExcept (r : Except φ α) : alone sem (.ofExcept r) s = (s, r) := by
  cases r with
  | ok a => rfl
  | error e => rfl

lemma alone_foldlM_cons_ok {γ : Type} {f : β → γ → Prog ε R φ β} {c : γ} {l : List γ} {b b' : β} :
    alone sem ((c :: l).foldlM f b) s = (u, .ok b') ↔
      ∃ t a, alone sem (f b c) s = (t, .ok a) ∧ alone sem (l.foldlM f a) t = (u, .ok b') := by
  rw [foldlM_cons, alone_bind_ok]

variable (sem p) in
def Quiet : Prop := ∀ s, (alone sem p s).1 = s

lemma Quiet.alone_eq (hp : Quiet sem p) {r : Except φ α} :
    alone sem p s = (t, r) ↔ t = s ∧ (alone sem p s).2 = r := by
  rw [Prod.ext_iff, hp s]
  exact and_congr_left fun _ => eq_comm

end alone

/-! ### What a program can spend -/

section spends

variable {cost cost' : ε → ℕ} {m n : ℕ} {p : Prog ε R φ α} {f : α → Prog ε R φ β}
  {Q Q' : α → Prop} {S : β → Prop}

/-- Whatever the replies are: the requests of the program cost at most `n`
together, and a result it ends with is in `Q`. -/
def Spends (cost : ε → ℕ) : Prog ε R φ α → ℕ → (α → Prop) → Prop
  | .done a, _, Q => Q a
  | .fail _, _, _ => True
  | .call e k, n, Q => cost e ≤ n ∧ ∀ r, Spends cost (k r) (n - cost e) Q

/-- A program whose requests cost nothing. -/
abbrev Free (cost : ε → ℕ) (p : Prog ε R φ α) : Prop := Spends cost p 0 fun _ => True

lemma Spends.mono (hp : Spends cost' p m Q) (hcost : ∀ e, cost e ≤ cost' e) (hn : m ≤ n)
    (hQ : ∀ a, Q a → Q' a) : Spends cost p n Q' := by
  induction p generalizing m n with
  | done a => exact hQ a hp
  | fail e => trivial
  | call e k ih =>
    have he := hcost e
    refine ⟨Nat.le_trans he (Nat.le_trans hp.1 hn), fun r => ih r (hp.2 r) ?_⟩
    omega

lemma Spends.bind (hp : Spends cost p m Q) (hf : ∀ a, Q a → Spends cost (f a) n S) :
    Spends cost (p >>= f) (m + n) S := by
  induction p generalizing m with
  | done a => exact (hf a hp).mono (fun _ => Nat.le_refl _) (Nat.le_add_left n m) fun _ h => h
  | fail e => trivial
  | call e k ih =>
    refine ⟨Nat.le_trans hp.1 (Nat.le_add_right m n), fun r => ?_⟩
    rw [Nat.sub_add_comm hp.1]
    exact ih r (hp.2 r)

lemma Spends.next (hp : Spends cost p 0 Q) (hf : ∀ a, Q a → Spends cost (f a) n S) :
    Spends cost (p >>= f) n S :=
  Nat.zero_add n ▸ hp.bind hf

lemma Spends.attempt (hp : Spends cost p n Q) : Spends cost p.attempt n fun _ => True := by
  induction p generalizing n with
  | done a | fail e => trivial
  | call e k ih => exact ⟨hp.1, fun r => ih r (hp.2 r)⟩

lemma spends_request {e : ε} (he : cost e ≤ n) :
    Spends cost (.request e : Prog ε R φ (R e)) n fun _ => True := by
  refine ⟨he, fun r => ?_⟩
  cases r <;> trivial

lemma free_ofExcept (r : Except φ α) : Free cost (.ofExcept r : Prog ε R φ α) := by
  cases r <;> trivial

lemma spends_foldlM {γ : Type} {f : β → γ → Prog ε R φ β}
    (hf : ∀ b c, Spends cost (f b c) n fun _ => True) :
    ∀ (l : List γ) (b : β), Spends cost (l.foldlM f b) (l.length * n) fun _ => True
  | [], _ => trivial
  | c :: l, b => by
    rw [foldlM_cons, length_cons, Nat.succ_mul, Nat.add_comm]
    exact (hf b c).bind fun a _ => spends_foldlM hf l a

lemma Spends.quiet {sem : (e : ε) → σ → σ × Except φ (R e)} (hp : Spends cost p 0 Q)
    (hsem : ∀ e s, cost e = 0 → (sem e s).1 = s) : Quiet sem p := by
  induction p with
  | done a | fail e => exact fun _ => rfl
  | call e k ih =>
    intro s
    have he : cost e = 0 := Nat.le_zero.mp hp.1
    rw [alone, hsem e s he]
    exact ih _ (by simpa [he] using hp.2 _) s

def spent (cost : ε → ℕ) (tr : List (Event σ ε R φ μ)) : ℕ :=
  ((replies tr).map fun reply => cost reply.1).sum

lemma exec_spends (hp : Spends cost p n Q) (s : σ) (sched : List (List μ × ι)) :
    spent cost (exec act sem p s sched).trace ≤ n := by
  induction p generalizing n s sched with
  | done a | fail e => exact Nat.zero_le n
  | call e k ih =>
    cases sched with
    | nil => exact Nat.zero_le n
    | cons slot sched =>
      have hmoves : ∀ (s : σ) (ms : List μ) (tr : List (Event σ ε R φ μ)),
          spent cost (moves act s ms ++ tr) = spent cost tr := by
        intro s ms tr
        induction ms generalizing s with
        | nil => rfl
        | cons m ms ih => exact ih (act m s)
      have hrest := ih (sem slot.2 e (moved act s slot.1)).2 (hp.2 _)
        (sem slot.2 e (moved act s slot.1)).1 sched
      have he := hp.1
      rw [exec, hmoves]
      change cost e + spent cost _ ≤ n
      omega

/-- A program that only reads leaves the state to the others. -/
theorem exec_final_of_free (hp : Spends cost p 0 Q)
    (hsem : ∀ i e s, cost e = 0 → (sem i e s).1 = s) (s : σ) (sched : List (List μ × ι)) :
    ∃ k, (exec act sem p s sched).final = moved act s ((sched.take k).flatMap (·.1)) := by
  induction p generalizing s sched with
  | done a | fail e => exact ⟨0, rfl⟩
  | call e k ih =>
    cases sched with
    | nil => exact ⟨0, rfl⟩
    | cons slot sched =>
      have he : cost e = 0 := Nat.le_zero.mp hp.1
      obtain ⟨j, hj⟩ := ih (sem slot.2 e (moved act s slot.1)).2 (by simpa [he] using hp.2 _)
        (moved act s slot.1) sched
      refine ⟨j + 1, ?_⟩
      rw [exec, hsem slot.2 e _ he, hj, take_succ_cons, flatMap_cons, moved, moved, moved,
        foldl_append]

end spends

end Programs
