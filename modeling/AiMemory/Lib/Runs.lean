/-
Runs of a deterministic transition system.

All nondeterminism (clock readings, fresh ids, which caller moves next) is
carried by the actions, so a run is a list of actions and the state it reaches
is a fold.

* `bind_ok`, `map_ok`, `foldlM_invariant` — the same for steps that can fail:
  taking a successful computation apart, and the invariant rule for a loop of
  them.
-/
import Mathlib.Data.List.Basic

open List

namespace Runs

variable {σ α : Type*}

/-- The state reached from `s` by a list of actions. -/
def exec (step : σ → α → σ) (s : σ) (as : List α) : σ := as.foldl step s

@[simp] lemma exec_nil (step : σ → α → σ) (s : σ) : exec step s [] = s := rfl

@[simp] lemma exec_cons (step : σ → α → σ) (s : σ) (a : α) (as : List α) :
    exec step s (a :: as) = exec step (step s a) as := rfl

lemma exec_append (step : σ → α → σ) (s : σ) (as bs : List α) :
    exec step s (as ++ bs) = exec step (exec step s as) bs :=
  foldl_append

/-- Every action meets `G` in the state it is taken from. -/
def Guarded (step : σ → α → σ) (G : σ → α → Prop) : σ → List α → Prop
  | _, [] => True
  | s, a :: as => G s a ∧ Guarded step G (step s a) as

instance decidableGuarded (step : σ → α → σ) (G : σ → α → Prop)
    [∀ s a, Decidable (G s a)] : ∀ s as, Decidable (Guarded step G s as)
  | _, [] => isTrue trivial
  | s, a :: as =>
    have := decidableGuarded step G (step s a) as
    inferInstanceAs (Decidable (G s a ∧ Guarded step G (step s a) as))

variable {step : σ → α → σ} {G : σ → α → Prop} {I : σ → Prop} {s : σ}

@[simp] lemma guarded_nil : Guarded step G s [] := trivial

@[simp] lemma guarded_cons {a : α} {as : List α} :
    Guarded step G s (a :: as) ↔ G s a ∧ Guarded step G (step s a) as := Iff.rfl

lemma guarded_append {as bs : List α} :
    Guarded step G s (as ++ bs) ↔ Guarded step G s as ∧ Guarded step G (exec step s as) bs := by
  induction as generalizing s with
  | nil => simp
  | cons a as ih =>
    rw [cons_append, guarded_cons, guarded_cons, ih, exec_cons, and_assoc]

lemma exec_guarded_invariant (hstep : ∀ s a, I s → G s a → I (step s a)) (h : I s) :
    ∀ {as : List α}, Guarded step G s as → I (exec step s as) := by
  intro as
  induction as generalizing s with
  | nil => exact fun _ => h
  | cons a as ih => exact fun hg => ih (hstep s a h hg.1) hg.2

lemma exec_invariant (hstep : ∀ s a, I s → I (step s a)) (h : I s) (as : List α) :
    I (exec step s as) := by
  induction as generalizing s with
  | nil => exact h
  | cons a as ih => exact ih (hstep s a h)

section Simulation

variable {τ β : Type*} {f : σ → τ}

lemma exec_comm {step' : τ → α → τ} (hstep : ∀ s a, f (step s a) = step' (f s) a) (s : σ)
    (as : List α) : f (exec step s as) = exec step' (f s) as := by
  induction as generalizing s with
  | nil => rfl
  | cons a as ih => rw [exec_cons, ih, hstep, exec_cons]

/-- If every step is a run of a coarser system, so is every run. -/
theorem exec_refines {step' : τ → β → τ} {as : List α}
    (hstep : ∀ s, ∀ a ∈ as, ∃ bs, f (step s a) = exec step' (f s) bs) :
    ∀ s, ∃ bs, f (exec step s as) = exec step' (f s) bs := by
  induction as with
  | nil => exact fun s => ⟨[], rfl⟩
  | cons a as ih =>
    intro s
    obtain ⟨bs, hbs⟩ := hstep s a mem_cons_self
    obtain ⟨cs, hcs⟩ := ih (fun s b hb => hstep s b (mem_cons_of_mem a hb)) (step s a)
    exact ⟨bs ++ cs, by rw [exec_cons, hcs, hbs, exec_append]⟩

end Simulation

lemma prefixes_iff_guarded {P : σ → Prop} (hP : ∀ s, I s → P s)
    (hkeep : ∀ s a, I s → G s a → I (step s a)) (hbreak : ∀ s a, I s → P (step s a) → G s a)
    (h : I s) (as : List α) :
    (∀ bs cs, as = bs ++ cs → P (exec step s bs)) ↔ Guarded step G s as := by
  induction as generalizing s with
  | nil =>
    refine ⟨fun _ => trivial, fun _ bs cs hsplit => ?_⟩
    rw [(append_eq_nil_iff.mp hsplit.symm).1]
    exact hP s h
  | cons a as ih =>
    rw [guarded_cons]
    constructor
    · intro hall
      have hG : G s a := hbreak s a h (hall [a] as rfl)
      refine ⟨hG, (ih (hkeep s a h hG)).mp fun bs cs hsplit => ?_⟩
      exact hall (a :: bs) cs (by rw [hsplit]; rfl)
    · rintro ⟨hG, hrest⟩ bs cs hsplit
      cases bs with
      | nil => exact hP s h
      | cons b bs =>
        rw [cons_append, List.cons.injEq] at hsplit
        obtain ⟨rfl, hsplit⟩ := hsplit
        exact (ih (hkeep s a h hG)).mpr hrest bs cs hsplit

section Outputs

variable {ω : Type*} {out : σ → α → ω}

def outputs (step : σ → α → σ) (out : σ → α → ω) : σ → List α → List ω
  | _, [] => []
  | s, a :: as => out s a :: outputs step out (step s a) as

lemma nodup_filterMap_outputs {τ : Type*} {ticket : ω → Option τ} {Spent : σ → τ → Prop}
    (hstep : ∀ s a, I s → I (step s a)) (hstay : ∀ s a x, I s → Spent s x → Spent (step s a) x)
    (hfresh : ∀ s a x, I s → ticket (out s a) = some x → ¬ Spent s x)
    (hspend : ∀ s a x, I s → ticket (out s a) = some x → Spent (step s a) x) (h : I s)
    (as : List α) :
    ((outputs step out s as).filterMap ticket).Nodup ∧
      ∀ x ∈ (outputs step out s as).filterMap ticket, ¬ Spent s x := by
  induction as generalizing s with
  | nil => simp [outputs]
  | cons a as ih =>
    obtain ⟨hnodup, hnot⟩ := ih (hstep s a h)
    rw [outputs, filterMap_cons]
    cases hx : ticket (out s a) with
    | none =>
      simp only
      exact ⟨hnodup, fun x hxm hsp => hnot x hxm (hstay s a x h hsp)⟩
    | some y =>
      simp only
      refine ⟨nodup_cons.mpr ⟨fun hy => hnot y hy (hspend s a y h hx), hnodup⟩, ?_⟩
      intro x hxm hsp
      rcases mem_cons.mp hxm with rfl | hxm
      · exact hfresh s a x h hx hsp
      · exact hnot x hxm (hstay s a x h hsp)

end Outputs

universe u

variable {ε : Type*} {β γ : Type u}

lemma bind_ok {x : Except ε β} {f : β → Except ε γ} {r : γ} :
    (x >>= f) = .ok r ↔ ∃ a, x = .ok a ∧ f a = .ok r := by
  cases x with
  | error e | ok a => simp [bind, Except.bind]

lemma map_ok {x : Except ε β} {f : β → γ} {r : γ} :
    x.map f = .ok r ↔ ∃ a, x = .ok a ∧ f a = r := by
  cases x with
  | error e | ok a => simp [Except.map]

lemma toOption_eq_some {x : Except ε β} {a : β} : x.toOption = some a ↔ x = .ok a := by
  cases x with
  | error e | ok b => simp [Except.toOption]

@[simp] lemma pure_ok {a b : β} : (pure a : Except ε β) = .ok b ↔ a = b := by
  simp [pure, Except.pure]

lemma foldlM_nil_ok {f : σ → α → Except ε σ} {s s' : σ} :
    List.foldlM f s [] = .ok s' ↔ s = s' := by
  rw [foldlM_nil, pure_ok]

lemma foldlM_cons_ok {f : σ → α → Except ε σ} {s s' : σ} {a : α} {as : List α} :
    List.foldlM f s (a :: as) = .ok s' ↔ ∃ t, f s a = .ok t ∧ List.foldlM f t as = .ok s' := by
  rw [foldlM_cons, bind_ok]

lemma foldlM_invariant {f : σ → α → Except ε σ} {s' : σ} {as : List α}
    (hstep : ∀ a ∈ as, ∀ s t, I s → f s a = .ok t → I t) (h : I s)
    (hok : List.foldlM f s as = .ok s') : I s' := by
  induction as generalizing s with
  | nil => exact foldlM_nil_ok.mp hok ▸ h
  | cons a as ih =>
    obtain ⟨t, hat, hrest⟩ := foldlM_cons_ok.mp hok
    exact ih (fun b hb => hstep b (mem_cons_of_mem a hb)) (hstep a mem_cons_self s t h hat) hrest

end Runs
