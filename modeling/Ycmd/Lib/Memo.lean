import Ycmd.Lib.Computation
import Mathlib.Data.List.AList

/-! A memo table: every key is built into an object on its first use, and the address of that
object is handed out from then on. Building may throw, and may itself use other tables. -/
namespace Lib
variable {ε σ κ α : Type} [DecidableEq κ]

/-- The holder maps a key to the address of its object, or to null when building it threw. -/
structure Memo (κ α : Type) [DecidableEq κ] where
  holder : AList (fun _ : κ => Option Nat)
  heap : List α

namespace Memo

def empty : Memo κ α := ⟨∅, []⟩

def tryEmplace (memo : Memo κ α) (k : κ) : Memo κ α :=
  if k ∈ memo.holder then memo else { memo with holder := memo.holder.insert k none }

/-- A new object, owned by the entry of its key. -/
def store (memo : Memo κ α) (k : κ) (a : α) : Memo κ α :=
  ⟨memo.holder.insert k (some memo.heap.length), memo.heap ++ [a]⟩

/-- Building the object of a key; when that throws, the null stays. -/
def construct (make : κ → EStateM ε σ α) (k : κ) : EStateM ε (Memo κ α × σ) Nat := fun (memo, s) =>
  match make k s with
  | .ok a s' => .ok memo.heap.length (memo.store k a, s')
  | .error e s' => .error e (memo, s')

/-- The address for one key. -/
def getElement (make : κ → EStateM ε σ α) (k : κ) : EStateM ε (Memo κ α × σ) Nat := fun (memo, s) =>
  let memo := memo.tryEmplace k
  match memo.holder.lookup k with
  | some (some p) => .ok p (memo, s)
  | _ => construct make k (memo, s)

/-- The addresses for a list of keys, up to the first that cannot be built. -/
def getElements (make : κ → EStateM ε σ α) : List κ → EStateM ε (Memo κ α × σ) (List Nat)
  | [] => pure []
  | k :: ks => do
    let p ← getElement make k
    let ps ← getElements make ks
    return p :: ps

/-- The object at an address. -/
def deref (dangling : ε) (p : Nat) : EStateM ε (Memo κ α × σ) α := fun (memo, s) =>
  match memo.heap[p]? with
  | some a => .ok a (memo, s)
  | none => .error dangling (memo, s)

/-- The objects for a list of keys. -/
def fetch (make : κ → EStateM ε σ α) (dangling : ε) (ks : List κ) : EStateM ε (Memo κ α × σ) (List α) := do
  let ps ← getElements make ks
  ps.mapM (deref dangling)

/-- Every address held for a key is that of the object the key denotes. -/
def Sound (denote : κ → Except ε α) (memo : Memo κ α) : Prop :=
  ∀ k p, memo.holder.lookup k = some (some p) → ∃ a, memo.heap[p]? = some a ∧ denote k = .ok a

theorem sound_empty (denote : κ → Except ε α) : Sound denote (empty : Memo κ α) := by
  intro k p h
  simp [empty] at h

@[simp] theorem tryEmplace_heap (memo : Memo κ α) (k : κ) : (memo.tryEmplace k).heap = memo.heap := by
  unfold tryEmplace
  split <;> rfl

theorem lookup_tryEmplace_some {memo : Memo κ α} {k k' : κ} {p : Nat} :
    (memo.tryEmplace k).holder.lookup k' = some (some p) ↔ memo.holder.lookup k' = some (some p) := by
  unfold tryEmplace
  split
  · rfl
  · rename_i h
    by_cases hk : k' = k
    · subst hk
      simp [AList.lookup_insert, AList.lookup_eq_none.mpr h]
    · simp [AList.lookup_insert_ne hk]

variable {denote : κ → Except ε α} {I : σ → Prop} {make : κ → EStateM ε σ α} {memo : Memo κ α}

theorem Sound.tryEmplace (h : Sound denote memo) (k : κ) : Sound denote (memo.tryEmplace k) := by
  intro k' p hp
  simpa using h k' p (lookup_tryEmplace_some.mp hp)

theorem Sound.store (h : Sound denote memo) {k : κ} {a : α} (hk : denote k = .ok a) :
    Sound denote (memo.store k a) := by
  intro k' p hp
  by_cases hkk : k' = k
  · subst hkk
    obtain rfl : memo.heap.length = p := by simpa [Memo.store, AList.lookup_insert] using hp
    exact ⟨a, by simp [Memo.store], hk⟩
  · rw [Memo.store, AList.lookup_insert_ne hkk] at hp
    obtain ⟨b, hb, hd⟩ := h k' p hp
    exact ⟨b, by simp [Memo.store, List.getElem?_append_left (List.getElem?_eq_some_iff.mp hb).1, hb], hd⟩

/-- What obtaining an address can do: objects are only ever added, and the one at the address
returned is what the key denotes. -/
def ElementSpec (denote : κ → Except ε α) (I : σ → Prop) (k : κ) (heap : List α) :
    EStateM.Result ε (Memo κ α × σ) Nat → Prop
  | .ok p (memo, s) => Sound denote memo ∧ I s ∧ heap <+: memo.heap ∧
      ∃ a, memo.heap[p]? = some a ∧ denote k = .ok a
  | .error e (memo, s) => Sound denote memo ∧ I s ∧ heap <+: memo.heap ∧ denote k = .error e

theorem construct_spec (hmake : ∀ k, Computes I (make k) (denote k)) (k : κ) {s : σ}
    (hm : Sound denote memo) (hs : I s) :
    ElementSpec denote I k memo.heap (construct make k (memo, s)) := by
  have hk := hmake k s hs
  cases hms : make k s with
  | ok a s' =>
    rw [hms] at hk
    simp only [construct, hms]
    exact ⟨hm.store hk.1, hk.2, List.prefix_append _ _, a, by simp [Memo.store], hk.1⟩
  | error e s' =>
    rw [hms] at hk
    simp only [construct, hms]
    exact ⟨hm, hk.2, List.prefix_rfl, hk.1⟩

theorem getElement_of_held {memo : Memo κ α} {k : κ} {p : Nat} (s : σ)
    (h : (memo.tryEmplace k).holder.lookup k = some (some p)) :
    getElement make k (memo, s) = .ok p (memo.tryEmplace k, s) := by
  simp only [getElement, h]

theorem getElement_of_not_held {memo : Memo κ α} {k : κ} (s : σ)
    (h : ∀ p, (memo.tryEmplace k).holder.lookup k ≠ some (some p)) :
    getElement make k (memo, s) = construct make k (memo.tryEmplace k, s) := by
  unfold getElement
  cases hl : (memo.tryEmplace k).holder.lookup k with
  | none => simp only [hl]
  | some held =>
    cases held with
    | none => simp only [hl]
    | some p => exact absurd hl (h p)

theorem getElement_spec (hmake : ∀ k, Computes I (make k) (denote k)) (k : κ) {s : σ}
    (hm : Sound denote memo) (hs : I s) :
    ElementSpec denote I k memo.heap (getElement make k (memo, s)) := by
  have hm' := hm.tryEmplace k
  by_cases h : ∃ p, (memo.tryEmplace k).holder.lookup k = some (some p)
  · obtain ⟨p, hp⟩ := h
    rw [getElement_of_held s hp]
    exact ⟨hm', hs, by simp, hm' k p hp⟩
  · rw [getElement_of_not_held s (not_exists.mp h), ← tryEmplace_heap memo k]
    exact construct_spec hmake k hm' hs

/-- The same for a list of keys, whose objects all stay where they are. -/
theorem getElements_spec (hmake : ∀ k, Computes I (make k) (denote k)) (ks : List κ) {memo : Memo κ α}
    {s : σ} (hm : Sound denote memo) (hs : I s) :
    match getElements make ks (memo, s) with
    | .ok ps (memo', s') => Sound denote memo' ∧ I s' ∧ memo.heap <+: memo'.heap ∧
        ∃ as, List.Forall₂ (fun p a => memo'.heap[p]? = some a) ps as ∧ ks.mapM denote = .ok as
    | .error e (memo', s') => Sound denote memo' ∧ I s' ∧ memo.heap <+: memo'.heap ∧
        ks.mapM denote = .error e := by
  induction ks generalizing memo s with
  | nil => exact ⟨hm, hs, List.prefix_rfl, [], .nil, rfl⟩
  | cons k ks ih =>
    have h1 := getElement_spec hmake k hm hs
    simp only [getElements, bind, EStateM.bind, List.mapM_cons]
    cases he : getElement make k (memo, s) with
    | error e t =>
      obtain ⟨memo', s'⟩ := t
      rw [he] at h1
      obtain ⟨hm', hs', hp, hd⟩ := h1
      exact ⟨hm', hs', hp, by rw [hd]; rfl⟩
    | ok p t =>
      obtain ⟨memo', s'⟩ := t
      rw [he] at h1
      obtain ⟨hm', hs', hp, a, ha, hd⟩ := h1
      have h2 := ih hm' hs'
      simp only [hd, Except.bind]
      cases hes : getElements make ks (memo', s') with
      | error e t =>
        obtain ⟨memo'', s''⟩ := t
        rw [hes] at h2
        obtain ⟨hm'', hs'', hp', hds⟩ := h2
        exact ⟨hm'', hs'', hp.trans hp', by rw [hds]⟩
      | ok ps t =>
        obtain ⟨memo'', s''⟩ := t
        rw [hes] at h2
        obtain ⟨hm'', hs'', hp', as, has, hds⟩ := h2
        have ha' : memo''.heap[p]? = some a := by
          obtain ⟨added, hadded⟩ := hp'
          rw [← hadded, List.getElem?_append_left (List.getElem?_eq_some_iff.mp ha).1, ha]
        exact ⟨hm'', hs'', hp.trans hp', a :: as, .cons ha' has, by rw [hds]; rfl⟩

private theorem mapM_deref (dangling : ε) {ps : List Nat} {as : List α} {s : σ}
    (h : List.Forall₂ (fun p a => memo.heap[p]? = some a) ps as) :
    ps.mapM (deref dangling) (memo, s) = .ok as (memo, s) := by
  induction h with
  | nil => rfl
  | cons ha _ ih => simp [List.mapM_cons, bind, EStateM.bind, deref, ha, ih, pure, EStateM.pure]

/-- Fetching objects computes the objects the keys denote, whatever is cached already. -/
theorem computes_fetch (hmake : ∀ k, Computes I (make k) (denote k)) (dangling : ε) (ks : List κ) :
    Computes (fun p : Memo κ α × σ => Sound denote p.1 ∧ I p.2) (fetch make dangling ks)
      (ks.mapM denote) := by
  rintro ⟨memo, s⟩ ⟨hm, hs⟩
  have h := getElements_spec hmake ks hm hs
  simp only [fetch, bind, EStateM.bind]
  cases he : getElements make ks (memo, s) with
  | error e t =>
    rw [he] at h
    exact ⟨h.2.2.2, h.1, h.2.1⟩
  | ok ps t =>
    obtain ⟨memo', s'⟩ := t
    rw [he] at h
    obtain ⟨hm', hs', -, as, has, hd⟩ := h
    simp only [mapM_deref dangling has]
    exact ⟨hd, hm', hs'⟩

/-- Tables grow: an address that is held for a key stays. -/
instance : Preorder (Memo κ α) where
  le memo memo' := ∀ k p, memo.holder.lookup k = some (some p) → memo'.holder.lookup k = some (some p)
  le_refl _ _ _ h := h
  le_trans _ _ _ h h' k p hp := h' k p (h k p hp)

theorem le_tryEmplace (memo : Memo κ α) (k : κ) : memo ≤ memo.tryEmplace k :=
  fun _ _ hp => lookup_tryEmplace_some.mpr hp

theorem le_store {memo : Memo κ α} {k : κ} (h : ∀ p, memo.holder.lookup k ≠ some (some p)) (a : α) :
    memo ≤ memo.store k a := by
  intro k' p hp
  have hne : k' ≠ k := by
    rintro rfl
    exact h p hp
  rwa [store, AList.lookup_insert_ne hne]

section Addresses
variable {ε σ κ α : Type} [DecidableEq κ] [Preorder σ] {make : κ → EStateM ε σ α}

theorem advances_construct (hmake : ∀ k, Advances (make k)) {k : κ} {memo : Memo κ α} (s : σ)
    (h : ∀ p, memo.holder.lookup k ≠ some (some p)) : (memo, s) ≤ stateAfter (construct make k) (memo, s) := by
  have hs := hmake k s
  cases hms : make k s with
  | ok a s' =>
    rw [stateAfter, hms] at hs
    simpa only [stateAfter, construct, hms] using Prod.mk_le_mk.mpr ⟨le_store h a, hs⟩
  | error e s' =>
    rw [stateAfter, hms] at hs
    simpa only [stateAfter, construct, hms] using Prod.mk_le_mk.mpr ⟨le_refl memo, hs⟩

theorem advances_getElement (hmake : ∀ k, Advances (make k)) (k : κ) :
    Advances (getElement make k : EStateM ε (Memo κ α × σ) Nat) := by
  rintro ⟨memo, s⟩
  have hle : (memo, s) ≤ (memo.tryEmplace k, s) := Prod.mk_le_mk.mpr ⟨le_tryEmplace memo k, le_refl s⟩
  by_cases h : ∃ p, (memo.tryEmplace k).holder.lookup k = some (some p)
  · obtain ⟨p, hp⟩ := h
    rwa [stateAfter, getElement_of_held s hp]
  · have hbuilt := advances_construct hmake s (not_exists.mp h)
    rw [stateAfter, getElement_of_not_held s (not_exists.mp h)]
    exact hle.trans hbuilt

theorem advances_getElements (hmake : ∀ k, Advances (make k)) (ks : List κ) :
    Advances (getElements make ks : EStateM ε (Memo κ α × σ) (List Nat)) := by
  induction ks with
  | nil => exact .pure []
  | cons k ks ih => exact (advances_getElement hmake k).bind (fun p => ih.bind (fun ps => .pure (p :: ps)))

theorem advances_deref (dangling : ε) (p : Nat) : Advances (deref dangling p : EStateM ε (Memo κ α × σ) α) := by
  rintro ⟨memo, s⟩
  cases h : memo.heap[p]? with
  | none => simp only [stateAfter, deref, h, le_refl]
  | some a => simp only [stateAfter, deref, h, le_refl]

theorem advances_fetch (hmake : ∀ k, Advances (make k)) (dangling : ε) (ks : List κ) :
    Advances (fetch make dangling ks : EStateM ε (Memo κ α × σ) (List α)) := by
  apply (advances_getElements hmake ks).bind
  intro ps
  induction ps with
  | nil => exact .pure []
  | cons p ps ih =>
    rw [List.mapM_cons]
    exact (advances_deref dangling p).bind (fun a => ih.bind (fun as => .pure (a :: as)))

end Addresses

/-- The address returned for a key is the one that is held for it from then on. -/
theorem lookup_getElement {k : κ} {p : Nat} {memo memo' : Memo κ α} {s s' : σ}
    (h : getElement make k (memo, s) = .ok p (memo', s')) : memo'.holder.lookup k = some (some p) := by
  by_cases hheld : ∃ q, (memo.tryEmplace k).holder.lookup k = some (some q)
  · obtain ⟨q, hq⟩ := hheld
    rw [getElement_of_held s hq] at h
    obtain ⟨rfl, rfl, -⟩ : q = p ∧ memo.tryEmplace k = memo' ∧ s = s' := by simpa using h
    exact hq
  · rw [getElement_of_not_held s (not_exists.mp hheld), construct] at h
    cases hms : make k s with
    | error e s'' => simp [hms] at h
    | ok a s'' =>
      simp only [hms, EStateM.Result.ok.injEq, Prod.mk.injEq] at h
      obtain ⟨rfl, rfl, -⟩ := h
      rw [store, AList.lookup_insert]

/-- The same for all addresses a call returns. -/
theorem returns_getElements [Preorder σ] (hmake : ∀ k, Advances (make k)) (ks : List κ) :
    Returns (getElements make ks) (fun ps (state : Memo κ α × σ) =>
      List.Forall₂ (fun k p => state.1.holder.lookup k = some (some p)) ks ps) := by
  induction ks with
  | nil =>
    rintro ⟨memo, s⟩ ps t h
    obtain ⟨rfl, -⟩ := EStateM.Result.ok.inj h
    exact .nil
  | cons k ks ih =>
    rintro ⟨memo, s⟩ ps state h
    obtain ⟨p, state', hk, h⟩ := run_bind_ok h
    obtain ⟨ps', state'', hks, h⟩ := run_bind_ok h
    obtain ⟨rfl, rfl⟩ : p :: ps' = ps ∧ state'' = state := EStateM.Result.ok.inj h
    have hle := advances_getElements hmake ks state'
    rw [stateAfter, hks] at hle
    exact .cons (hle.1 k p (lookup_getElement hk)) (ih state' ps' state'' hks)

/-- A call keeps the table sound and what is below it as it has to be. -/
theorem keeps_getElements (hmake : ∀ k, Computes I (make k) (denote k)) (ks : List κ) :
    Keeps (fun p : Memo κ α × σ => Sound denote p.1 ∧ I p.2) (getElements make ks) (fun _ => True) := by
  rintro ⟨memo, s⟩ ⟨hm, hs⟩
  have h := getElements_spec hmake ks hm hs
  cases hms : getElements make ks (memo, s) with
  | ok ps t =>
    rw [hms] at h
    exact ⟨⟨h.1, h.2.1⟩, trivial⟩
  | error e t =>
    rw [hms] at h
    exact ⟨h.1, h.2.1⟩

end Memo
end Lib
