/-
  Reporting — what is told of a proposal that is rejected.

  A rejection lists failures, and it is the only thing a user has to go by.  So it has to be right
  in two ways: whatever it lists is as it says, and whatever it does not list would do.  Both are
  one statement about an entry and a reason:

      the reason is listed for the entry  ↔  the entry fails for that reason  (`Entry.Fails`)

  `Entry.Fails` says when, once for each reason, and is about records only.  At most one
  of the reasons applies to an entry, since each says that those before it do not.

  1. The verdict on an entry is the reason it fails for, if it is told what was staged for the
     entries before it, and an entry that is staged does not fail (`Verdict.error_iff_fails`).
  2. What was staged for the entries before it is what was staged for those of them that are not
     listed (`Judged.map_fst_spared`).  This is where numbers of regions have to be distinct, as
     they are in every proposal (`nodup_accepted`).
  3. A mapping that is in the way tells by its number whether it is committed or staged: numbers of
     what is staged were never in use (`Judged.not_covers`).

  The reasons for the later entries depend on which of the earlier ones are listed, and there is no
  circle in that, since a reason only looks back.
-/
import RegionAtlas.Proofs.Acceptance
import RegionAtlas.Proofs.Loading
import RegionAtlas.Proofs.PairingLaw

namespace RegionAtlas

/-! ## Reasons -/

/-- **The first of the committed mappings that a mapping conflicts with**, by number. -/
def Contents.FirstClash (c : Contents) (m : Mapping) (id : MappingId) : Prop :=
  ∃ n, c.mapping? id = some n ∧ n.conflictsWith m = true ∧
    ∀ id' n', c.mapping? id' = some n' → n'.conflictsWith m = true → id.raw ≤ id'.raw

/-- No committed mapping conflicts with a mapping. -/
def Contents.Frees (c : Contents) (m : Mapping) : Prop :=
  ∀ id n, c.mapping? id = some n → n.conflictsWith m = false

/-- **The first of some entries whose prospect conflicts with a mapping**, by its region. -/
def FirstRival (c : Contents) (image : Image) (entries : List Entry) (m : Mapping)
    (id : RegionId) : Prop :=
  ∃ before f after, entries = before ++ f :: after ∧ f.region.id = id ∧
    (∃ n, f.Prospect c image n ∧ n.conflictsWith m = true) ∧
    ∀ g ∈ before, ∀ n, g.Prospect c image n → n.conflictsWith m = false

/-- **When an entry fails for a reason**, given the entries before it that do not fail. -/
def Entry.Fails (c : Contents) (image : Image) (s : Snap) (spared : List Entry) (e : Entry) :
    FailureReason → Prop
  | .staleRegion => ¬ e.Alive c s
  | .staleBlock => e.Alive c s ∧ ¬ e.Listed image
  | .overlap id => e.Alive c s ∧ e.Listed image ∧ ∃ m, e.Prospect c image m ∧ c.FirstClash m id
  | .overlapsEntry id => e.Alive c s ∧ e.Listed image ∧
      ∃ m, e.Prospect c image m ∧ c.Frees m ∧ FirstRival c image spared m id
  | .invalid _ => False

/-- Whether a failure is reported for the region of an entry. -/
def Entry.isReported (failures : List Failure) (e : Entry) : Bool :=
  failures.any (·.region == e.region.id)

/-- The entries for which no failure is reported. -/
def sparedBy (failures : List Failure) (entries : List Entry) : List Entry :=
  entries.filter fun e => !e.isReported failures

/-- **A report that is complete and true.** -/
structure Explains (c : Contents) (image : Image) (s : Snap) (entries : List Entry)
    (failures : List Failure) : Prop where
  some : failures ≠ []
  inOrder : (failures.map (·.region)).Sublist (entries.map (·.region.id))
  once : (failures.map (·.region)).Nodup
  spared : Committable c image s (sparedBy failures entries)
  prospects : ∀ e ∈ sparedBy failures entries, ∃ m, e.Prospect c image m
  reasons : ∀ before e after, entries = before ++ e :: after → ∀ reason,
    ⟨e.region.id, reason⟩ ∈ failures ↔ e.Fails c image s (sparedBy failures before) reason
  valid : ∀ f ∈ failures, ∀ why, f.reason ≠ .invalid why

section Reasons

variable {c : Contents} {image : Image} {s : Snap} {spared : List Entry} {e : Entry}
  {reason reason' : FailureReason} {m n : Mapping}

/-- What conflicts with one prospect of an entry conflicts with every other. -/
theorem Entry.Prospect.conflicts_congr (hm : e.Prospect c image m) (hn : e.Prospect c image n)
    (other : Mapping) : other.conflictsWith n = other.conflictsWith m := by
  rw [Mapping.conflictsWith_comm, hm.conflictsWith_congr hn, Mapping.conflictsWith_comm]

/-- There is one first clash. -/
theorem Contents.FirstClash.unique {id id' : MappingId} (h : c.FirstClash m id)
    (h' : c.FirstClash m id') : id = id' := by
  obtain ⟨n, hn, hclash, hlowest⟩ := h
  obtain ⟨n', hn', hclash', hlowest'⟩ := h'
  have hraw : id.raw = id'.raw :=
    UInt64.le_antisymm (hlowest id' n' hn' hclash') (hlowest' id n hn hclash)
  cases id
  cases id'
  exact congrArg MappingId.mk hraw

/-- There is one first rival. -/
theorem FirstRival.unique {id id' : RegionId} (h : FirstRival c image spared m id)
    (h' : FirstRival c image spared m id') : id = id' := by
  obtain ⟨before, f, after, hsplit, rfl, ⟨n, hn, hclash⟩, hnone⟩ := h
  obtain ⟨before', f', after', hsplit', rfl, ⟨n', hn', hclash'⟩, hnone'⟩ := h'
  -- of two places in one list one is behind the other, or they are the same
  rcases List.append_eq_append_iff.mp (hsplit.symm.trans hsplit') with
    ⟨between, hbefore, hrest⟩ | ⟨between, hbefore, hrest⟩
  · cases between with
    | nil => rw [(List.cons.inj hrest).1]
    | cons g more =>
      obtain ⟨rfl, -⟩ := List.cons.inj hrest
      have hin : f ∈ before' := hbefore ▸ List.mem_append_right _ List.mem_cons_self
      rw [hnone' f hin n hn] at hclash
      cases hclash
  · cases between with
    | nil => rw [(List.cons.inj hrest).1]
    | cons g more =>
      obtain ⟨rfl, -⟩ := List.cons.inj hrest
      have hin : f' ∈ before := hbefore ▸ List.mem_append_right _ List.mem_cons_self
      rw [hnone f' hin n' hn'] at hclash'
      cases hclash'

/-! ### What decides the reason

  The checks come one after the other, and the first that is not passed is the reason. -/

theorem fails_iff_of_dead (hdead : ¬ e.Alive c s) :
    e.Fails c image s spared reason ↔ reason = .staleRegion := by
  cases reason with
  | staleRegion => exact iff_of_true hdead rfl
  | staleBlock => exact iff_of_false (fun h => hdead h.1) nofun
  | overlap id => exact iff_of_false (fun h => hdead h.1) nofun
  | overlapsEntry id => exact iff_of_false (fun h => hdead h.1) nofun
  | invalid why => exact iff_of_false id nofun

theorem fails_iff_of_unlisted (halive : e.Alive c s) (hunlisted : ¬ e.Listed image) :
    e.Fails c image s spared reason ↔ reason = .staleBlock := by
  cases reason with
  | staleRegion => exact iff_of_false (fun h => h halive) nofun
  | staleBlock => exact iff_of_true ⟨halive, hunlisted⟩ rfl
  | overlap id => exact iff_of_false (fun h => hunlisted h.2.1) nofun
  | overlapsEntry id => exact iff_of_false (fun h => hunlisted h.2.1) nofun
  | invalid why => exact iff_of_false id nofun

section Listed

variable (halive : e.Alive c s) (hlisted : e.Listed image) (hm : e.Prospect c image m)

include halive hlisted hm

theorem fails_iff_of_firstClash {id : MappingId} (hclash : c.FirstClash m id) :
    e.Fails c image s spared reason ↔ reason = .overlap id := by
  cases reason with
  | staleRegion => exact iff_of_false (fun h => h halive) nofun
  | staleBlock => exact iff_of_false (fun h => h.2 hlisted) nofun
  | overlap id' =>
    constructor
    · rintro ⟨-, -, n, hn, hclash'⟩
      simp only [Contents.FirstClash, hm.conflicts_congr hn] at hclash'
      rw [hclash.unique hclash']
    · intro h
      cases h
      exact ⟨halive, hlisted, m, hm, hclash⟩
  | overlapsEntry id' =>
    refine iff_of_false ?_ nofun
    rintro ⟨-, -, n, hn, hfree, -⟩
    obtain ⟨other, hother, hconflict, -⟩ := hclash
    rw [← hm.conflicts_congr hn, hfree id other hother] at hconflict
    cases hconflict
  | invalid why => exact iff_of_false (fun h => h) nofun

theorem fails_iff_of_firstRival {id : RegionId} (hfree : c.Frees m)
    (hrival : FirstRival c image spared m id) :
    e.Fails c image s spared reason ↔ reason = .overlapsEntry id := by
  cases reason with
  | staleRegion => exact iff_of_false (fun h => h halive) nofun
  | staleBlock => exact iff_of_false (fun h => h.2 hlisted) nofun
  | overlap id' =>
    refine iff_of_false ?_ nofun
    rintro ⟨-, -, n, hn, other, hother, hconflict, -⟩
    rw [hm.conflicts_congr hn, hfree id' other hother] at hconflict
    cases hconflict
  | overlapsEntry id' =>
    constructor
    · rintro ⟨-, -, n, hn, -, hrival'⟩
      simp only [FirstRival, hm.conflicts_congr hn] at hrival'
      rw [hrival.unique hrival']
    · intro h
      cases h
      exact ⟨halive, hlisted, m, hm, hfree, hrival⟩
  | invalid why => exact iff_of_false (fun h => h) nofun

/-- An entry whose prospect is in nothing's way does not fail. -/
theorem not_fails (hfree : c.Frees m)
    (hapart : ∀ f ∈ spared, ∀ n, f.Prospect c image n → n.conflictsWith m = false) :
    ¬ e.Fails c image s spared reason := by
  cases reason with
  | staleRegion => exact fun h => h halive
  | staleBlock => exact fun h => h.2 hlisted
  | overlap id =>
    rintro ⟨-, -, n, hn, other, hother, hconflict, -⟩
    rw [hm.conflicts_congr hn, hfree id other hother] at hconflict
    cases hconflict
  | overlapsEntry id =>
    rintro ⟨-, -, n, hn, -, before, f, after, rfl, -, ⟨o, ho, hconflict⟩, -⟩
    rw [hm.conflicts_congr hn,
      hapart f (List.mem_append_right _ List.mem_cons_self) o ho] at hconflict
    cases hconflict
  | invalid why => exact id

end Listed

end Reasons

/-! ## 1. Verdicts are reasons -/

section Verdicts

variable {c : Contents} {image : Image} {s : Snap} {k k' : Counters}
  {before made : List (Entry × Mapping)} {e : Entry} {entries : List Entry}
  {failures : List Failure} {reason : FailureReason} {m : Mapping}

/-- The first mapping in the way is the committed one of the lowest number, if any committed one is,
and otherwise the first that is staged. -/
theorem firstMappingConflict?_append {xs ys : List Mapping} :
    firstMappingConflict? (xs ++ ys) m =
      (firstMappingConflict? xs m).or (firstMappingConflict? ys m) := by
  rw [firstMappingConflict?, List.find?_append, Option.map_or]
  rfl

/-- The first committed mapping in the way is the first by number. -/
theorem Contents.firstClash_of_first (hkeyed : ∀ id n, c.mapping? id = some n → n.id = id)
    {id : MappingId} (h : firstMappingConflict? c.mappings.values m = some id) :
    c.FirstClash m id := by
  obtain ⟨n, hfound, rfl⟩ := Option.map_eq_some_iff.mp h
  obtain ⟨hmem, hclash, hlowest⟩ := Table.lowest_of_find? hkeyed hfound
  obtain ⟨id, hn⟩ := Contents.mem_mappings.mp hmem
  refine ⟨n, by rw [hkeyed id n hn]; exact hn, hclash, fun id' n' hn' hclash' => ?_⟩
  rw [← hkeyed id' n' hn']
  exact MappingId.raw_le (hlowest n' (Contents.mem_mappings.mpr ⟨id', hn'⟩) hclash')

theorem Contents.frees_iff : c.Frees m ↔ firstMappingConflict? c.mappings.values m = none := by
  rw [firstMappingConflict?_eq_none]
  constructor
  · intro h n hn
    obtain ⟨id, hid⟩ := Contents.mem_mappings.mp hn
    exact h id n hid
  · intro h id n hn
    exact h n (Contents.mem_mappings.mpr ⟨id, hn⟩)

/-- The first staged mapping in the way was staged for the first rival, and nothing else was staged
under its number. -/
theorem Cleared.firstRival (h : Cleared c image s k before) {id : MappingId}
    (hfirst : firstMappingConflict? (before.map (·.2)) m = some id) :
    ∃ owner, (madeFor before).find? (·.mapping == id) = some ⟨id, owner⟩ ∧
      FirstRival c image (before.map (·.1)) m owner := by
  obtain ⟨n, hfound, rfl⟩ := Option.map_eq_some_iff.mp hfirst
  obtain ⟨hclash, earlier, later, hsplit, hnone⟩ := List.find?_eq_some_iff_append.mp hfound
  obtain ⟨ps, qs, rfl, rfl, hqs⟩ := List.map_eq_append_iff.mp hsplit
  obtain ⟨p, qs, rfl, rfl, rfl⟩ := List.map_eq_cons_iff.mp hqs
  have hp : p ∈ ps ++ p :: qs := List.mem_append_right _ List.mem_cons_self
  refine ⟨p.1.region.id, ?_, ps.map (·.1), p.1, qs.map (·.1), ?_, rfl,
    ⟨p.2, h.prospect p hp, hclash⟩, ?_⟩
  · -- numbers ascend, so that of every earlier one is lower
    refine List.find?_eq_some_iff_append.mpr ⟨beq_self_eq_true _, madeFor ps, madeFor qs, ?_, ?_⟩
    · rw [madeFor, List.map_append, List.map_cons]
      rfl
    · intro made hmade
      obtain ⟨q, hq, rfl⟩ := List.mem_map.mp hmade
      have hlt := (List.pairwise_append.mp h.ascending).2.2 q hq p List.mem_cons_self
      rw [Bool.not_eq_true', beq_eq_false_iff_ne]
      intro hsame
      rw [show q.2.id = p.2.id from hsame] at hlt
      exact UInt64.lt_irrefl _ hlt
  · rw [List.map_append, List.map_cons]
  · intro g hg n hn
    obtain ⟨q, hq, rfl⟩ := List.mem_map.mp hg
    have hfree := hnone q.2 (List.mem_map.mpr ⟨q, hq, rfl⟩)
    rw [Bool.not_eq_true'] at hfree
    rw [(h.prospect q (List.mem_append_left _ hq)).conflictsWith_congr hn]
    exact hfree

/-- **A verdict against an entry is the reason for which it fails**, given what was staged before it
under numbers that were not in use; and where a mapping is staged for it, it does not fail. -/
theorem Verdict.error_iff_fails {verdict : Except FailureReason Mapping}
    (h : Verdict c image s k before e k' verdict) (hcleared : Cleared c image s k before)
    (hkeyed : ∀ id n, c.mapping? id = some n → n.id = id)
    (hunused : ∀ p ∈ before, c.mapping? p.2.id = none)
    (hnumbers : verdict ≠ .error (.invalid (.idsExhausted .mappings))) :
    verdict = .error reason ↔ e.Fails c image s (before.map (·.1)) reason := by
  cases h with
  | staleRegion hdead => rw [fails_iff_of_dead hdead, Except.error.injEq, eq_comm]
  | staleBlock halive hunlisted =>
    rw [fails_iff_of_unlisted halive hunlisted, Except.error.injEq, eq_comm]
  | exhausted _ _ _ => exact absurd rfl hnumbers
  | @clash _ m id range halive hlisted hprospect htaken hfirst =>
    rw [firstMappingConflict?_append] at hfirst
    rw [Except.error.injEq, eq_comm]
    cases hcommitted : firstMappingConflict? c.mappings.values m with
    | some first =>
      rw [hcommitted] at hfirst
      cases hfirst
      have hclash := Contents.firstClash_of_first hkeyed hcommitted
      obtain ⟨n, hn, -⟩ := hclash
      -- nothing was staged under the number of a committed mapping
      have hnone : (madeFor before).find? (·.mapping == id) = none := by
        refine List.find?_eq_none.mpr fun made hmade => ?_
        obtain ⟨p, hp, rfl⟩ := List.mem_map.mp hmade
        intro hsame
        rw [← beq_iff_eq.mp hsame, hunused p hp] at hn
        cases hn
      have hreason : FailureReason.ofRefusal (madeFor before) (.overlap range (.mapping id)) =
          .overlap id := by
        simp only [FailureReason.ofRefusal, hnone]
      rw [hreason, fails_iff_of_firstClash halive hlisted hprospect
        (Contents.firstClash_of_first hkeyed hcommitted)]
    | none =>
      rw [hcommitted] at hfirst
      obtain ⟨owner, hfound, hrival⟩ := hcleared.firstRival hfirst
      have hreason : FailureReason.ofRefusal (madeFor before) (.overlap range (.mapping id)) =
          .overlapsEntry owner := by
        simp only [FailureReason.ofRefusal, hfound]
      rw [hreason, fails_iff_of_firstRival halive hlisted hprospect
        (Contents.frees_iff.mpr hcommitted) hrival]
  | @staged _ m halive hlisted hprospect htaken hfree =>
    rw [firstMappingConflict?_append, Option.or_eq_none_iff] at hfree
    refine iff_of_false (fun h => ?_) ?_
    · cases h
    refine not_fails halive hlisted hprospect (Contents.frees_iff.mpr hfree.1) ?_
    intro f hf n hn
    obtain ⟨p, hp, rfl⟩ := List.mem_map.mp hf
    rw [(hcleared.prospect p hp).conflictsWith_congr hn]
    exact firstMappingConflict?_eq_none.mp hfree.2 p.2 (List.mem_map.mpr ⟨p, hp, rfl⟩)

/-! ## 2. All entries -/

/-- What the verdict on an entry adds to the report. -/
def Entry.noted (e : Entry) : Except FailureReason Mapping → List Failure
  | .ok _ => []
  | .error reason => [⟨e.region.id, reason⟩]

theorem Entry.isReported_iff : e.isReported failures = true ↔
    e.region.id ∈ failures.map (·.region) := by
  rw [isReported, List.any_eq_true, List.mem_map]
  simp only [beq_iff_eq]

/-- Failures of other entries do not matter for which entries are spared. -/
theorem sparedBy_congr {failures' : List Failure}
    (h : ∀ e ∈ entries, e.region.id ∈ failures.map (·.region) ↔
      e.region.id ∈ failures'.map (·.region)) :
    sparedBy failures entries = sparedBy failures' entries := by
  refine List.filter_congr fun e he => ?_
  rw [Bool.not_inj_iff, Bool.eq_iff_iff, Entry.isReported_iff, Entry.isReported_iff]
  exact h e he

/-- Failures are in the order of the entries, and there is one for an entry at most. -/
theorem Judged.sublist (h : Judged c image s k before entries k' made failures) :
    (failures.map (·.region)).Sublist (entries.map (·.region.id)) := by
  induction h with
  | nil k made => exact .slnil
  | staged _ _ ih => exact ih.cons _
  | failed _ _ ih => exact ih.cons_cons _

/-- **What is staged is staged for the entries that are not reported**, in order. -/
theorem Judged.map_fst_spared (h : Judged c image s k before entries k' made failures)
    (hids : (entries.map (·.region.id)).Nodup) :
    made.map (·.1) = before.map (·.1) ++ sparedBy failures entries := by
  induction h with
  | nil k made => exact (List.append_nil _).symm
  | @staged k k₁ k' before made failures e m rest _ hlater ih =>
    obtain ⟨hnew, hrest⟩ := List.nodup_cons.mp hids
    have hspared : e.isReported failures = false := by
      rw [Bool.eq_false_iff, ne_eq, Entry.isReported_iff]
      exact fun hin => hnew (hlater.sublist.subset hin)
    rw [ih hrest, sparedBy, sparedBy, List.filter_cons_of_pos (by rw [hspared]; rfl),
      List.map_append, List.append_assoc]
    rfl
  | @failed k k₁ k' before made failures e reason rest _ _ ih =>
    obtain ⟨hnew, hrest⟩ := List.nodup_cons.mp hids
    have hreported : e.isReported (⟨e.region.id, reason⟩ :: failures) = true :=
      Entry.isReported_iff.mpr List.mem_cons_self
    have hothers : sparedBy (⟨e.region.id, reason⟩ :: failures) rest = sparedBy failures rest := by
      refine sparedBy_congr fun f hf => ?_
      have hne : f.region.id ≠ e.region.id :=
        fun hsame => hnew (List.mem_map.mpr ⟨f, hf, hsame⟩)
      rw [List.map_cons, List.mem_cons, or_iff_right hne]
    rw [ih hrest, ← hothers, sparedBy, sparedBy,
      List.filter_cons_of_neg (by rw [hreported]; exact Bool.false_ne_true)]

/-- **The verdict on one entry**, and what was judged before it and after it. -/
theorem Judged.at_entry {earlier later : List Entry}
    (h : Judged c image s k before (earlier ++ e :: later) k' made failures) :
    ∃ k₁ k₂ between verdict reported others,
      Judged c image s k before earlier k₁ between reported ∧
      Verdict c image s k₁ between e k₂ verdict ∧
      failures = reported ++ (e.noted verdict ++ others) ∧
      (others.map (·.region)).Sublist (later.map (·.region.id)) := by
  induction earlier generalizing k before failures with
  | nil =>
    cases h with
    | staged hverdict hlater =>
      exact ⟨k, _, before, _, [], failures, .nil k before, hverdict, rfl, hlater.sublist⟩
    | failed hverdict hlater =>
      exact ⟨k, _, before, _, [], _, .nil k before, hverdict, rfl, hlater.sublist⟩
  | cons first rest ih =>
    cases h with
    | staged hfirst hrest =>
      obtain ⟨k₁, k₂, between, verdict, reported, others, hearlier, hverdict, hall, hothers⟩ :=
        ih hrest
      exact ⟨k₁, k₂, between, verdict, reported, others, .staged hfirst hearlier, hverdict, hall,
        hothers⟩
    | failed hfirst hrest =>
      obtain ⟨k₁, k₂, between, verdict, reported, others, hearlier, hverdict, hall, hothers⟩ :=
        ih hrest
      exact ⟨k₁, k₂, between, verdict, _, others, .failed hfirst hearlier, hverdict,
        congrArg _ hall, hothers⟩

/-! ## 3. Numbers of what is staged -/

/-- **What is staged has numbers that were not in use** when the check began. -/
theorem Judged.not_covers {k₀ : Counters} (h : Judged c image s k before entries k' made failures)
    (hmono : ∀ x, k₀.Covers x → k.Covers x)
    (hbefore : ∀ p ∈ before, ¬ k₀.Covers (.mapping p.2.id)) :
    ∀ p ∈ made, ¬ k₀.Covers (.mapping p.2.id) := by
  induction h with
  | nil k made => exact hbefore
  | @staged k k₁ k' before made failures e m rest hverdict _ ih =>
    cases hverdict with
    | staged _ _ _ htaken _ =>
      obtain ⟨-, huncovered, -, hmore⟩ := Counters.takeMapping?_spec htaken
      refine ih (fun x hx => hmore x (hmono x hx)) fun p hp => ?_
      rcases List.mem_append.mp hp with hp | hp
      · exact hbefore p hp
      · rw [List.mem_singleton.mp hp]
        exact fun hcovered => huncovered (hmono _ hcovered)
  | failed hverdict _ ih =>
    refine ih (fun x hx => ?_) hbefore
    cases hverdict with
    | staleRegion _ => exact hmono x hx
    | staleBlock _ _ => exact hmono x hx
    | exhausted _ _ _ => exact hmono x hx
    | clash _ _ _ htaken _ => exact (Counters.takeMapping?_spec htaken).2.2.2 x (hmono x hx)

/-! ## Reports -/

/-- **The failures noted for entries explain what became of them**, if the regions of the entries
are distinct, the mappings have the numbers they are found under, which are in use, and there are
numbers enough. -/
theorem Judged.explains (h : Judged c image s k [] entries k' made failures)
    (hsome : failures ≠ []) (hids : (entries.map (·.region.id)).Nodup)
    (hkeyed : ∀ id n, c.mapping? id = some n → n.id = id)
    (hcovered : ∀ id n, c.mapping? id = some n → k.Covers (.mapping id))
    (hnumbers : ∀ f ∈ failures, f.reason ≠ .unnumbered) :
    Explains c image s entries failures := by
  have hspared : made.map (·.1) = sparedBy failures entries := h.map_fst_spared hids
  have hcleared : Cleared c image s k' made := h.sound (cleared_nil _ _ _ _)
  have hcommittable : Committable c image s (sparedBy failures entries) :=
    hspared ▸ hcleared.committable
  have hreasons : ∀ earlier e later, entries = earlier ++ e :: later → ∀ reason,
      ⟨e.region.id, reason⟩ ∈ failures ↔
        e.Fails c image s (sparedBy failures earlier) reason := by
    rintro earlier e later rfl reason
    obtain ⟨k₁, k₂, between, verdict, reported, others, hearlier, hverdict, hall, hothers⟩ :=
      h.at_entry
    rw [List.map_append, List.map_cons] at hids
    obtain ⟨hfirst, hlast, hapart⟩ := List.nodup_append.mp hids
    obtain ⟨hnew, -⟩ := List.nodup_cons.mp hlast
    have hearlierIds : ∀ f ∈ earlier, f.region.id ∉ (e.noted verdict ++ others).map (·.region) := by
      intro f hf hin
      rw [List.map_append, List.mem_append] at hin
      refine hapart _ (List.mem_map.mpr ⟨f, hf, rfl⟩) f.region.id ?_ rfl
      rcases hin with hin | hin
      · cases verdict with
        | ok m => exact absurd hin List.not_mem_nil
        | error reason =>
          rw [List.mem_singleton.mp hin]
          exact List.mem_cons_self
      · exact List.mem_cons_of_mem _ (hothers.subset hin)
    -- the failures of the entry itself are those that its own verdict notes
    have hown : ⟨e.region.id, reason⟩ ∈ failures ↔ verdict = .error reason := by
      have hreported : ⟨e.region.id, reason⟩ ∉ reported := fun hin =>
        hapart _ (hearlier.sublist.subset (List.mem_map.mpr ⟨_, hin, rfl⟩)) e.region.id
          List.mem_cons_self rfl
      have hother : ⟨e.region.id, reason⟩ ∉ others := fun hin =>
        hnew (hothers.subset (List.mem_map.mpr ⟨_, hin, rfl⟩))
      rw [hall, List.mem_append, List.mem_append, or_iff_right hreported, or_iff_left hother]
      cases verdict with
      | ok m => exact iff_of_false List.not_mem_nil nofun
      | error reason' =>
        simp only [Entry.noted, List.mem_singleton, Failure.mk.injEq, true_and, Except.error.injEq,
          eq_comm]
    have hbetween : between.map (·.1) = sparedBy failures earlier := by
      rw [hearlier.map_fst_spared hfirst]
      refine sparedBy_congr fun f hf => ?_
      rw [hall, List.map_append, List.mem_append, or_iff_left (hearlierIds f hf)]
    have hunused : ∀ p ∈ between, c.mapping? p.2.id = none := by
      intro p hp
      refine Option.eq_none_iff_forall_ne_some.mpr fun n hn => ?_
      exact hearlier.not_covers (fun x hx => hx) (fun _ hq => nomatch hq) p hp (hcovered _ n hn)
    have hnumbered : verdict ≠ .error .unnumbered := by
      rintro rfl
      refine hnumbers ⟨e.region.id, .unnumbered⟩ ?_ rfl
      rw [hall]
      exact List.mem_append_right _ List.mem_cons_self
    rw [hown, ← hbetween]
    exact hverdict.error_iff_fails (hearlier.sound (cleared_nil _ _ _ _)) hkeyed hunused hnumbered
  exact {
    some := hsome
    inOrder := h.sublist
    once := hids.sublist h.sublist
    spared := hcommittable
    prospects := fun e he =>
      Entry.exists_prospect (hcommittable.alive e he) (hcommittable.listed e he)
    reasons := hreasons
    valid := by
      intro f hf why hwhy
      obtain ⟨e, he, hid⟩ := List.mem_map.mp (h.sublist.subset (List.mem_map.mpr ⟨f, hf, rfl⟩))
      obtain ⟨earlier, later, hsplit⟩ := List.append_of_mem he
      have hthis : f = ⟨e.region.id, .invalid why⟩ := by rw [hid, ← hwhy]
      exact (hreasons earlier e later hsplit _).mp (hthis ▸ hf) }

end Verdicts

/-! ## Every trace and every proposal -/

/-- What is reported is what the check found. -/
theorem failures_of_rejected {t : Trace} {p : Proposal} {image : Image} {s : Snap}
    {failures : List Failure}
    (h : (commitProposal t p image s).2 = .error (.rejected failures)) :
    (p.check t image s).failures = failures ∧ failures ≠ [] := by
  by_cases hnone : (p.check t image s).failures = []
  · unfold commitProposal at h
    dsimp only at h
    split at h
    · split at h
      · cases Except.error.inj h
      · cases h
    · next hsome => exact absurd hnone hsome
  · rw [commitProposal_of_failures hnone] at h
    cases h
    exact ⟨rfl, hnone⟩

/-- The accepted entries of a proposal are for distinct regions, however it was revised. -/
theorem nodup_accepted (regions : List Region) (source : Image)
    (revisions : List Proposal.Revision) :
    ((((propose regions source).revised revisions).accepted).map (·.region.id)).Nodup := by
  have hall : (((propose regions source).revised revisions).entries.map (·.region.id)).Nodup := by
    have hregions := (regions_perm regions source).map (·.id)
    rw [← Proposal.map_region_revised _ revisions, List.map_map] at hregions
    exact hregions.nodup_iff.mpr (nodup_ids_distinctRegions regions)
  exact hall.sublist (List.filter_sublist.map _)

/-- **A rejection tells what is wrong with a proposal, all of it and nothing else.**  The trace is
any that calls can lead to, with whatever contents it started from; the proposal was made for
regions that the trace has or had, and revised in any way; there are as many numbers as entries that
ask for one.

Then the failures listed, one for an entry at most and in their order, are those of accepted
entries; the reason listed for an entry is the one it fails for, given the entries before it that
are not listed; and those that are not listed could be committed together. -/
theorem rejections_explained {c : Contents} (hc : c.Attained) (id : TraceId)
    (name : String) (limit : Nat) (calls : List Trace.Call) (regions : List Region)
    (source : Image) (revisions : List Proposal.Revision) (image : Image) (s : Snap)
    (failures : List Failure) :
    let opened := Trace.ofContents id name c limit
    let t := opened.calls calls
    let p := (propose regions source).revised revisions
    (∀ r ∈ regions, ∃ n, (opened.calls (calls.take n)).contents.region? r.id = some r) →
    t.counters.mapping.toNat + p.demand t image s ≤ reservedId.toNat →
    (commitProposal t p image s).2 = .error (.rejected failures) →
      Explains t.contents image s p.accepted failures := by
  intro opened t p hfound hroom hrejected
  have hcurrent : ∀ e ∈ p.accepted, e.Current t.contents :=
    current_of_found hc id name limit calls hfound
  obtain ⟨hfailures, hsome⟩ := failures_of_rejected hrejected
  obtain ⟨k, made, noted, hjudged, hcheck⟩ := check_eq hcurrent image s
  have hnoted : noted = failures := (congrArg Checked.failures hcheck).symm.trans hfailures
  rw [hnoted] at hjudged
  have hcovered : ∀ id n, t.contents.mapping? id = some n → t.counters.Covers (.mapping id) := by
    intro id' n hn
    obtain ⟨steps, hsteps⟩ := opened.exists_run_of_calls calls
    obtain ⟨htells, hapart⟩ := course_ofContents id name c limit steps
    have hcovers := hapart.heldCovered _ htells.visits (.mapping id')
    rw [show opened.run steps = t from hsteps.symm] at hcovers
    exact hcovers ⟨n, hn⟩
  have hnumbers : ∀ f ∈ failures, f.reason ≠ .unnumbered := by
    intro f hf hwant
    have hout := (hjudged.unnumbered_iff hcurrent).mp ⟨f, hf, hwant⟩
    exact Nat.not_lt_of_le hroom hout
  exact hjudged.explains hsome (nodup_accepted regions source revisions)
    (Contents.Corresponds.calls hc id name limit calls).keyed hcovered hnumbers

/-! ## A proposal whose blocks meet -/

def chartInner : Block := ⟨"inner", "ram", ⟨0x600800, 0x6017ff, by decide⟩⟩

/-- A proposal for two regions, and for two blocks that share addresses. -/
def meetingProposal : Proposal :=
  (propose [chartData, chartText] ⟨"echo", [chartLow, chartInner]⟩).revised
    [.setBlock 0 (some chartLow), .setBlock 1 (some chartInner)]

theorem meetingProposal_eq : meetingProposal =
    ⟨"echo", [⟨chartData, some chartLow, true⟩, ⟨chartText, some chartInner, true⟩], ⟨0, 0⟩⟩ := by
  rw [meetingProposal, propose_chart]
  decide

/-- The second entry fails for the first; but if the block of the first is gone, then the first
fails, and what it would have been mapped to is in nobody's way. -/
theorem meeting_explained :
    let t := (Trace.ofContents ⟨1⟩ "echo" .empty 50).calls chartCalls
    let both : Image := ⟨"echo", [chartLow, chartInner]⟩
    let one : Image := ⟨"echo", [chartInner]⟩
    Explains t.contents both 3 meetingProposal.accepted [⟨⟨1⟩, .overlapsEntry ⟨0⟩⟩] ∧
      Explains t.contents one 3 meetingProposal.accepted [⟨⟨0⟩, .staleBlock⟩] := by
  intro t both one
  have hfound : ∀ r ∈ [chartData, chartText], ∃ n,
      ((Trace.ofContents ⟨1⟩ "echo" .empty 50).calls (chartCalls.take n)).contents.region? r.id =
        some r := by
    intro r hr
    refine ⟨4, ?_⟩
    revert r
    decide
  have hroom : ∀ image ∈ [both, one],
      t.counters.mapping.toNat + meetingProposal.demand t image 3 ≤ reservedId.toNat := by
    rw [meetingProposal_eq]
    decide
  have hboth : (commitProposal t meetingProposal both 3).2 =
      .error (.rejected [⟨⟨1⟩, .overlapsEntry ⟨0⟩⟩]) := by
    rw [meetingProposal_eq]
    decide
  have hone : (commitProposal t meetingProposal one 3).2 =
      .error (.rejected [⟨⟨0⟩, .staleBlock⟩]) := by
    rw [meetingProposal_eq]
    decide
  exact ⟨rejections_explained .empty ⟨1⟩ "echo" 50 chartCalls _ _ _ both 3 _ hfound
      (hroom both (by decide)) hboth,
    rejections_explained .empty ⟨1⟩ "echo" 50 chartCalls _ _ _ one 3 _ hfound
      (hroom one (by decide)) hone⟩

end RegionAtlas
