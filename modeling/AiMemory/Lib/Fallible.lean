/-
Computations that may fail, run one after another.
-/
import Mathlib.Data.List.Basic

open List

namespace Fallible

variable {ε α β : Type}

variable {b : β} {l : List α} {f : α → Option β} {out : List β} {σ : Type}

lemma bind_eq_ok {x : Except ε α} {f : α → Except ε β} :
    x >>= f = .ok b ↔ ∃ a, x = .ok a ∧ f a = .ok b := by
  cases x with
  | error e =>
    constructor
    · intro h; cases h
    · rintro ⟨a, ha, -⟩; cases ha
  | ok a =>
    constructor
    · intro h; exact ⟨a, rfl, h⟩
    · rintro ⟨a', ha, h⟩
      cases ha
      exact h

lemma bind_ne_error {x : Except ε α} {f : α → Except ε β} {e : ε} (hx : x ≠ .error e)
    (hf : ∀ a, x = .ok a → f a ≠ .error e) : x >>= f ≠ .error e := by
  cases x with
  | error e' =>
    intro h
    cases h
    exact hx rfl
  | ok a => exact hf a rfl

lemma forM_eq_ok {f : α → Except ε Unit} : l.forM f = .ok () ↔ ∀ a ∈ l, f a = .ok () := by
  induction l with
  | nil =>
    constructor
    · intro _ a ha; cases ha
    · intro _; rfl
  | cons a l ih =>
    rw [forall_mem_cons, ← ih]
    change f a >>= (fun _ => l.forM f) = .ok () ↔ _
    rw [bind_eq_ok]
    constructor
    · rintro ⟨⟨⟩, ha, hl⟩; exact ⟨ha, hl⟩
    · rintro ⟨ha, hl⟩; exact ⟨(), ha, hl⟩

lemma map_eq_of_mapM_eq_some (h : l.mapM f = some out) : l.map f = out.map some := by
  induction l generalizing out with
  | nil =>
    obtain rfl : [] = out := Option.some.inj h
    rfl
  | cons first l ih =>
    rw [mapM_cons] at h
    obtain ⟨b, hb, h⟩ := Option.bind_eq_some_iff.mp h
    obtain ⟨rest, hrest, h⟩ := Option.bind_eq_some_iff.mp h
    obtain rfl : b :: rest = out := Option.some.inj h
    rw [map_cons, map_cons, hb, ih hrest]

lemma mem_of_mapM_eq_some (h : l.mapM f = some out) {a : α} (ha : a ∈ l) :
    ∃ b ∈ out, f a = some b := by
  obtain ⟨b, hb, hf⟩ := mem_map.mp (map_eq_of_mapM_eq_some h ▸ mem_map_of_mem ha)
  exact ⟨b, hb, hf.symm⟩

lemma of_mem_mapM_eq_some (h : l.mapM f = some out) (hb : b ∈ out) : ∃ a ∈ l, f a = some b :=
  mem_map.mp (map_eq_of_mapM_eq_some h ▸ mem_map_of_mem hb)

lemma length_of_mapM_eq_some (h : l.mapM f = some out) : out.length = l.length := by
  simpa using (congrArg length (map_eq_of_mapM_eq_some h)).symm

lemma mapM_map {γ : Type} (g : β → γ) (l : List α) :
    (l.mapM fun a => (f a).map g) = (l.mapM f).map (map g) := by
  induction l with
  | nil => rfl
  | cons a l ih =>
    rw [mapM_cons, mapM_cons, ih]
    cases f a with
    | none => rfl
    | some b => cases l.mapM f <;> rfl

lemma mapM_mono {g : α → Option β} (hfg : ∀ a b, f a = some b → g a = some b)
    (h : l.mapM f = some out) : l.mapM g = some out := by
  induction l generalizing out with
  | nil => exact h
  | cons a l ih =>
    rw [mapM_cons] at h ⊢
    obtain ⟨b, hb, h⟩ := Option.bind_eq_some_iff.mp h
    obtain ⟨rest, hrest, h⟩ := Option.bind_eq_some_iff.mp h
    rw [hfg a b hb, ih hrest]
    exact h

lemma map_eq_of_mapM_eq_ok {f : α → Except ε β} (h : l.mapM f = .ok out) :
    l.map f = out.map .ok := by
  induction l generalizing out with
  | nil =>
    obtain rfl : [] = out := Except.ok.inj h
    rfl
  | cons first l ih =>
    rw [mapM_cons] at h
    obtain ⟨b, hb, h⟩ := bind_eq_ok.mp h
    obtain ⟨rest, hrest, h⟩ := bind_eq_ok.mp h
    obtain rfl : b :: rest = out := Except.ok.inj h
    rw [map_cons, map_cons, hb, ih hrest]

lemma of_mem_mapM_eq_ok {f : α → Except ε β} (h : l.mapM f = .ok out) (hb : b ∈ out) :
    ∃ a ∈ l, f a = .ok b :=
  mem_map.mp (map_eq_of_mapM_eq_ok h ▸ mem_map_of_mem hb)

lemma mapM_eq_ok_map {f : α → Except ε β} {g : α → β} (h : ∀ a ∈ l, f a = .ok (g a)) :
    l.mapM f = .ok (l.map g) := by
  induction l with
  | nil => rfl
  | cons a l ih =>
    rw [mapM_cons, h a mem_cons_self, ih fun b hb => h b (mem_cons_of_mem _ hb)]
    rfl

/-- A sequence of computations with a state, taken apart. -/
theorem run_bind_eq_some {x : StateT σ Option α} {f : α → StateT σ Option β} {s : σ} {out : β × σ} :
    (x >>= f).run s = some out ↔ ∃ a s', x.run s = some (a, s') ∧ (f a).run s' = some out := by
  rw [StateT.run_bind, Option.bind_eq_bind, Option.bind_eq_some_iff]
  constructor
  · rintro ⟨⟨a, s'⟩, hx, hf⟩
    exact ⟨a, s', hx, hf⟩
  · rintro ⟨a, s', hx, hf⟩
    exact ⟨(a, s'), hx, hf⟩

def Returns {σ : Type} (x : StateT σ Option α) (P : α → Prop) : Prop :=
  ∀ s a s', x.run s = some (a, s') → P a

lemma Returns.pure {P : α → Prop} {a : α} (h : P a) :
    Returns (Pure.pure a : StateT σ Option α) P := by
  rintro s a' s' ⟨⟩
  exact h

lemma Returns.bind {x : StateT σ Option α} {f : α → StateT σ Option β} {P : α → Prop}
    {Q : β → Prop} (hx : Returns x P) (hf : ∀ a, P a → Returns (f a) Q) : Returns (x >>= f) Q := by
  intro s b s' h
  obtain ⟨a, s₁, ha, hb⟩ := run_bind_eq_some.mp h
  exact hf a (hx s a s₁ ha) s₁ b s' hb

end Fallible
