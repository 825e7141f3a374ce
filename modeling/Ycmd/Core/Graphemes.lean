import Ycmd.Core.Word

/-! Grapheme segmentation: the loop's one property and two flags against the extended grapheme
cluster rules of UAX #29, which look back over everything before a position. -/
namespace Ycmd.Core
open Lib

/-- GB6 to GB13: what keeps a code point with those before it. -/
inductive Joined (before : List BreakProperty) (after : BreakProperty) : Prop
  | gb6 (h : before.getLast? = some .l) (ha : after ∈ [.l, .v, .lv, .lvt])
  | gb7 (h : before.getLast? ∈ [some .lv, some .v]) (ha : after ∈ [.v, .t])
  | gb8 (h : before.getLast? ∈ [some .lvt, some .t]) (ha : after = .t)
  | gb9 (ha : after ∈ [.extend, .zwj])
  | gb9a (ha : after = .spacingMark)
  | gb9b (h : before.getLast? = some .prepend)
  | gb11 (pre : List BreakProperty) (n : Nat)
      (h : before = pre ++ .extPict :: (List.replicate n .extend ++ [.zwj])) (ha : after = .extPict)
  | gb12 (n : Nat) (h : before = List.replicate (2*n+1) .regionalIndicator) (ha : after = .regionalIndicator)
  | gb13 (pre : List BreakProperty) (last : BreakProperty) (n : Nat) (hne : last ≠ .regionalIndicator)
      (h : before = pre ++ last :: List.replicate (2*n+1) .regionalIndicator) (ha : after = .regionalIndicator)

def BreakProperty.IsControl (property : BreakProperty) : Prop := property ∈ [.control, .cr, .lf]

/-- Whether the rules require a boundary: GB3, then GB4 and GB5, then GB6 to GB13, then GB999. -/
def Boundary (before : List BreakProperty) (after : BreakProperty) : Prop :=
  ¬ (before.getLast? = some .cr ∧ after = .lf) ∧
    ((∃ last, before.getLast? = some last ∧ last.IsControl) ∨ after.IsControl ∨ ¬ Joined before after)

/-- The regional indicators at the end of a context; contexts are read backwards from here on. -/
def indicatorRun : List BreakProperty → Nat
  | .regionalIndicator :: before => indicatorRun before + 1
  | _ => 0

def afterPictographic : List BreakProperty → Bool
  | .extPict :: _ => true
  | .extend :: before => afterPictographic before
  | _ => false

def withinModifier : List BreakProperty → Bool
  | .extend :: before => afterPictographic before
  | .zwj :: before => afterPictographic before
  | _ => false

/-- What the flags say of a context. -/
def contextFlags (before : List BreakProperty) : BreakFlags where
  isRegionalIndicatorNbOdd := (indicatorRun before - 1) % 2 == 1
  withinEmojiModifier := withinModifier before

theorem afterPictographic_iff {before : List BreakProperty} :
    afterPictographic before = true ↔ ∃ n pre, before = List.replicate n .extend ++ .extPict :: pre := by
  induction before with
  | nil => simp [afterPictographic]
  | cons property before ih =>
    cases property with
    | extPict => simpa [afterPictographic] using ⟨0, before, rfl⟩
    | extend =>
      rw [afterPictographic, ih]
      constructor
      · rintro ⟨n, pre, rfl⟩
        exact ⟨n+1, pre, rfl⟩
      · rintro ⟨n, pre, h⟩
        cases n with
        | zero => cases h
        | succ n => exact ⟨n, pre, (List.cons.inj h).2⟩
    | _ =>
      simp only [afterPictographic, Bool.false_eq_true, false_iff]
      rintro ⟨n, pre, h⟩
      cases n <;> cases h

theorem eq_replicate_indicatorRun (before : List BreakProperty) :
    ∃ pre, before = List.replicate (indicatorRun before) .regionalIndicator ++ pre ∧
      pre.head? ≠ some .regionalIndicator := by
  induction before with
  | nil => exact ⟨[], rfl, by simp⟩
  | cons property before ih =>
    cases property with
    | regionalIndicator =>
      obtain ⟨pre, h, hpre⟩ := ih
      refine ⟨pre, ?_, hpre⟩
      rw [indicatorRun, List.replicate_succ, List.cons_append, ← h]
    | _ => exact ⟨_, rfl, by simp⟩

theorem indicatorRun_replicate (n : Nat) (pre : List BreakProperty) (h : pre.head? ≠ some .regionalIndicator) :
    indicatorRun (List.replicate n .regionalIndicator ++ pre) = n := by
  induction n with
  | zero =>
    cases pre with
    | nil => rfl
    | cons property pre => cases property <;> simp_all [indicatorRun]
  | succ n ih => rw [List.replicate_succ, List.cons_append, indicatorRun, ih]

/-- GB12 and GB13 together count the regional indicators before a position. -/
theorem oddIndicators_iff (before : List BreakProperty) :
    (∃ n, before.reverse = List.replicate (2*n+1) .regionalIndicator) ∨
      (∃ pre last n, last ≠ .regionalIndicator ∧
        before.reverse = pre ++ last :: List.replicate (2*n+1) .regionalIndicator) ↔
      indicatorRun before % 2 = 1 := by
  constructor
  · rintro (⟨n, h⟩ | ⟨pre, last, n, hne, h⟩)
    · rw [List.reverse_eq_iff, List.reverse_replicate] at h
      have := indicatorRun_replicate (2*n+1) [] (by simp)
      rw [List.append_nil, ← h] at this
      omega
    · rw [List.reverse_eq_iff, List.reverse_append, List.reverse_cons, List.reverse_replicate,
        List.append_assoc] at h
      have := indicatorRun_replicate (2*n+1) ([last] ++ pre.reverse) (by simpa using hne)
      rw [← h] at this
      omega
  · intro hodd
    obtain ⟨pre, h, hpre⟩ := eq_replicate_indicatorRun before
    obtain ⟨n, hn⟩ : ∃ n, indicatorRun before = 2*n+1 := ⟨indicatorRun before / 2, by omega⟩
    rw [hn] at h
    cases pre with
    | nil => exact .inl ⟨n, by rw [List.reverse_eq_iff, List.reverse_replicate, h, List.append_nil]⟩
    | cons last pre => exact .inr ⟨pre.reverse, last, n, by simpa using hpre, by simp [h]⟩

/-- The rules that keep code points together, by the property before and what stands before it. -/
theorem joined_reverse_iff (before : List BreakProperty) (previous after : BreakProperty) :
    Joined (previous :: before).reverse after ↔
      previous = .l ∧ after ∈ [.l, .v, .lv, .lvt] ∨ previous ∈ [.lv, .v] ∧ after ∈ [.v, .t] ∨
      previous ∈ [.lvt, .t] ∧ after = .t ∨ after ∈ [.extend, .zwj] ∨ after = .spacingMark ∨
      previous = .prepend ∨ previous = .zwj ∧ afterPictographic before = true ∧ after = .extPict ∨
      indicatorRun (previous :: before) % 2 = 1 ∧ after = .regionalIndicator := by
  have hlast : (previous :: before).reverse.getLast? = some previous := by simp
  constructor
  · intro h
    cases h with
    | gb6 h ha => exact .inl ⟨by simpa using h, ha⟩
    | gb7 h ha => exact .inr (.inl ⟨by simpa using h, ha⟩)
    | gb8 h ha => exact .inr (.inr (.inl ⟨by simpa using h, ha⟩))
    | gb9 ha => exact .inr (.inr (.inr (.inl ha)))
    | gb9a ha => exact .inr (.inr (.inr (.inr (.inl ha))))
    | gb9b h => exact .inr (.inr (.inr (.inr (.inr (.inl (by simpa using h))))))
    | gb11 pre n h ha =>
      rw [List.reverse_eq_iff] at h
      simp only [List.reverse_append, List.reverse_cons, List.reverse_nil, List.nil_append,
        List.reverse_replicate, List.append_assoc, List.cons_append,
        List.cons.injEq] at h
      exact .inr (.inr (.inr (.inr (.inr (.inr (.inl
        ⟨h.1, afterPictographic_iff.mpr ⟨n, pre.reverse, h.2⟩, ha⟩))))))
    | gb12 n h ha =>
      exact .inr (.inr (.inr (.inr (.inr (.inr (.inr ⟨(oddIndicators_iff _).mp (.inl ⟨n, h⟩), ha⟩))))))
    | gb13 pre last n hne h ha =>
      exact .inr (.inr (.inr (.inr (.inr (.inr (.inr
        ⟨(oddIndicators_iff _).mp (.inr ⟨pre, last, n, hne, h⟩), ha⟩))))))
  · rintro (⟨rfl, ha⟩ | ⟨h, ha⟩ | ⟨h, rfl⟩ | ha | rfl | rfl | ⟨rfl, h, rfl⟩ | ⟨h, rfl⟩)
    · exact .gb6 hlast ha
    · exact .gb7 (by rw [hlast]; simpa using h) ha
    · exact .gb8 (by rw [hlast]; simpa using h) rfl
    · exact .gb9 ha
    · exact .gb9a rfl
    · exact .gb9b hlast
    · obtain ⟨n, pre, rfl⟩ := afterPictographic_iff.mp h
      refine .gb11 pre.reverse n ?_ rfl
      simp
    · rcases (oddIndicators_iff _).mpr h with ⟨n, h⟩ | ⟨pre, last, n, hne, h⟩
      · exact .gb12 n h rfl
      · exact .gb13 pre last n hne h rfl

/-- One round of the loop: with the flags of the context it joins exactly where the rules require no
boundary, and leaves the flags of the context that follows. -/
theorem joins_contextFlags (before : List BreakProperty) (previous property : BreakProperty) :
    ((joins (contextFlags (previous :: before)) previous property).1 = true ↔
      ¬ Boundary (previous :: before).reverse property) ∧
    (joins (contextFlags (previous :: before)) previous property).2 =
      contextFlags (property :: previous :: before) := by
  have hlast : (previous :: before).reverse.getLast? = some previous := by simp
  unfold Boundary
  rw [joined_reverse_iff, hlast]
  simp only [Option.some.injEq, exists_eq_left', BreakProperty.IsControl]
  cases previous <;>
    simp only [joins, contextFlags, indicatorRun, withinModifier, List.mem_cons, List.not_mem_nil, or_false,
      reduceCtorEq, false_and, true_and, false_or, true_or, or_true] <;>
    cases property <;> simp [indicatorRun, afterPictographic]
  case zwj.extPict => cases afterPictographic before <;> simp
  case regionalIndicator.regionalIndicator =>
    rcases Nat.mod_two_eq_zero_or_one (indicatorRun before) with h | h <;> simp [h, Nat.add_mod]

/-- The text of a cluster. -/
def normalText (cluster : List CodePoint) : Bytes := cluster.flatMap CodePoint.normal

/-- A cluster ends where the code points of `before` do. -/
def EndsCluster (clusters : List (List CodePoint)) (before : List CodePoint) : Prop :=
  ∃ first last, clusters = first ++ last ∧ first.flatten = before

private theorem endsCluster_cons {cluster before : List CodePoint} {clusters : List (List CodePoint)}
    (hne : cluster ≠ []) : EndsCluster (cluster :: clusters) (cluster ++ before) ↔ EndsCluster clusters before := by
  constructor
  · rintro ⟨first, last, h, hflat⟩
    cases first with
    | nil => simp [hne] at hflat
    | cons c first =>
      obtain ⟨rfl, rfl⟩ := List.cons.inj h
      exact ⟨first, last, rfl, List.append_cancel_left hflat⟩
  · rintro ⟨first, last, rfl, rfl⟩
    exact ⟨cluster :: first, last, rfl, rfl⟩

/-- No cluster ends inside the first one. -/
private theorem not_endsCluster_inside {before rest : List CodePoint} {clusters : List (List CodePoint)}
    (hne : before ≠ []) (hrest : rest ≠ []) : ¬ EndsCluster ((before ++ rest) :: clusters) before := by
  rintro ⟨first, last, h, hflat⟩
  cases first with
  | nil => exact hne hflat.symm
  | cons c first =>
    obtain ⟨rfl, -⟩ := List.cons.inj h
    rw [List.flatten_cons, List.append_assoc, List.append_right_eq_self] at hflat
    exact hrest (List.append_eq_nil_iff.mp hflat).1

/-- The properties of a text, read backwards. -/
def contextOf (before : List CodePoint) : List BreakProperty := (before.map CodePoint.breakProperty).reverse

/-- The round of the loop at a code point, after those before it. -/
theorem joins_contextOf (before : List CodePoint) (previous codePoint : CodePoint) :
    ((joins (contextFlags (contextOf (before ++ [previous]))) previous.breakProperty codePoint.breakProperty).1 = true ↔
      ¬ Boundary ((before ++ [previous]).map CodePoint.breakProperty) codePoint.breakProperty) ∧
    (joins (contextFlags (contextOf (before ++ [previous]))) previous.breakProperty codePoint.breakProperty).2 =
      contextFlags (contextOf (before ++ [previous] ++ [codePoint])) := by
  have hcontext : previous.breakProperty :: contextOf before = contextOf (before ++ [previous]) := by
    simp [contextOf]
  have hnext : codePoint.breakProperty :: contextOf (before ++ [previous]) =
      contextOf (before ++ [previous] ++ [codePoint]) := by
    simp [contextOf]
  have hbefore : (contextOf (before ++ [previous])).reverse = (before ++ [previous]).map CodePoint.breakProperty :=
    List.reverse_reverse _
  have hround := joins_contextFlags (contextOf before) previous.breakProperty codePoint.breakProperty
  rwa [hcontext, hnext, hbefore] at hround

/-- The loop from a code point on: `earlier` is in clusters already pushed, `character` is the text of
`cluster`, which ends with `previous`. -/
theorem breakLoop_clusters (earlier cluster codePoints : List CodePoint) (previous : CodePoint) :
    ∃ first clusters,
      breakLoop (contextFlags (contextOf (earlier ++ cluster ++ [previous]))) previous
        (normalText (cluster ++ [previous])) codePoints =
        ((cluster ++ [previous] ++ first) :: clusters).map normalText ∧
      ((cluster ++ [previous] ++ first) :: clusters).flatten = cluster ++ [previous] ++ codePoints ∧
      [] ∉ clusters ∧
      ∀ before codePoint after, codePoints = before ++ codePoint :: after →
        (EndsCluster ((cluster ++ [previous] ++ first) :: clusters) (cluster ++ [previous] ++ before) ↔
          Boundary ((earlier ++ cluster ++ [previous] ++ before).map CodePoint.breakProperty)
            codePoint.breakProperty) := by
  induction codePoints generalizing earlier cluster previous with
  | nil => exact ⟨[], [], by simp [breakLoop], by simp, by simp, by simp⟩
  | cons codePoint codePoints ih =>
    obtain ⟨hjoin, hflags⟩ := joins_contextOf (earlier ++ cluster) previous codePoint
    cases hj : joins (contextFlags (contextOf (earlier ++ cluster ++ [previous]))) previous.breakProperty
        codePoint.breakProperty with
    | mk joined flags =>
      rw [hj] at hjoin hflags
      obtain rfl := hflags
      cases joined with
      | true =>
        obtain ⟨first, clusters, hrun, hflat, hne, hbound⟩ := ih earlier (cluster ++ [previous]) codePoint
        refine ⟨codePoint :: first, clusters, ?_, ?_, hne, ?_⟩
        · rw [← List.append_assoc] at hrun
          rw [breakLoop, hj]
          simpa [normalText] using hrun
        · simpa using hflat
        · intro before other after h
          cases before with
          | nil =>
            obtain ⟨rfl, -⟩ := List.cons.inj h
            have hinside : ¬ EndsCluster ((cluster ++ [previous] ++ codePoint :: first) :: clusters)
                (cluster ++ [previous]) := not_endsCluster_inside (by simp) (by simp)
            simp only [List.append_nil]
            exact iff_of_false hinside (hjoin.mp rfl)
          | cons c before =>
            obtain ⟨rfl, hrest⟩ := List.cons.inj h
            simpa using hbound before other after hrest
      | false =>
        obtain ⟨first, clusters, hrun, hflat, hne, hbound⟩ := ih (earlier ++ cluster ++ [previous]) [] codePoint
        refine ⟨[], (codePoint :: first) :: clusters, ?_, ?_, ?_, ?_⟩
        · rw [breakLoop, hj]
          simpa [normalText] using hrun
        · simpa using hflat
        · simpa using hne
        · intro before other after h
          cases before with
          | nil =>
            obtain ⟨rfl, -⟩ := List.cons.inj h
            simp only [List.append_nil]
            exact iff_of_true ⟨[_], _, rfl, by simp⟩ (by simpa using hjoin)
          | cons c before =>
            obtain ⟨rfl, hrest⟩ := List.cons.inj h
            rw [List.append_nil, endsCluster_cons (by simp)]
            simpa using hbound before other after hrest

private theorem contextFlags_singleton (property : BreakProperty) : contextFlags [property] = ⟨false, false⟩ := by
  cases property <;> rfl

theorem flatten_map_normalText (clusters : List (List CodePoint)) :
    (clusters.map normalText).flatten = normalText clusters.flatten := by
  induction clusters with
  | nil => rfl
  | cons cluster clusters ih => simp [normalText, ih]

/-- Words are broken into the extended grapheme clusters of their code points, and nothing is lost. -/
theorem characters_are_graphemes (codePoints : List CodePoint) :
    ∃ clusters : List (List CodePoint),
      breakCodePointsIntoCharacters codePoints = clusters.map normalText ∧
      clusters.flatten = codePoints ∧ [] ∉ clusters ∧
      (∀ before codePoint after, codePoints = before ++ codePoint :: after → before ≠ [] →
        (EndsCluster clusters before ↔
          Boundary (before.map CodePoint.breakProperty) codePoint.breakProperty)) ∧
      (breakCodePointsIntoCharacters codePoints).flatten = normalText codePoints := by
  cases codePoints with
  | nil => exact ⟨[], rfl, rfl, by simp, by simp, rfl⟩
  | cons codePoint codePoints =>
    obtain ⟨first, clusters, hrun, hflat, hne, hbound⟩ := breakLoop_clusters [] [] codePoints codePoint
    have hbreak : breakCodePointsIntoCharacters (codePoint :: codePoints) =
        ((codePoint :: first) :: clusters).map normalText := by
      simpa [breakCodePointsIntoCharacters, normalText, contextOf, contextFlags_singleton] using hrun
    refine ⟨(codePoint :: first) :: clusters, hbreak, by simpa using hflat, by simpa using hne, ?_, ?_⟩
    · intro before other after h hbefore
      cases before with
      | nil => exact absurd rfl hbefore
      | cons c before =>
        obtain ⟨rfl, hrest⟩ := List.cons.inj h
        simpa using hbound before other after hrest
    · rw [hbreak, flatten_map_normalText]
      exact congrArg normalText (by simpa using hflat)

end Ycmd.Core
