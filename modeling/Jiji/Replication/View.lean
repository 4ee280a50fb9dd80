import Jiji.Replication.Register

/-!
# Views

A view is the executable form of a register file: a sorted map of standing
records together with the identifiers already taken in.  A log of distinct
identifiers replays in a view exactly when it runs under the rules that the
view's apply function refines.
-/

set_option linter.unusedSectionVars false

namespace Replication

open Std

variable {κ ι ρ ε Ω : Type*}
variable [Ord κ] [TransOrd κ] [LawfulEqOrd κ] [DecidableEq κ]
variable [Ord ι] [TransOrd ι] [LawfulEqOrd ι] [DecidableEq ι]
variable [LinearOrder Ω]

/-- The record a sorted map holds for each key. -/
def slotsOf (records : ExtTreeMap κ ρ) : Slots κ ρ := fun key => records[key]?

@[simp] theorem slotsOf_empty : slotsOf (∅ : ExtTreeMap κ ρ) = Slots.empty := by
  funext key
  simp [slotsOf, Slots.empty]

@[simp] theorem slotsOf_insert
    (records : ExtTreeMap κ ρ)
    (key : κ)
    (record : ρ) :
    slotsOf (records.insert key record) =
      Function.update (slotsOf records) key (some record) := by
  funext other
  rw [slotsOf, ExtTreeMap.getElem?_insert]
  by_cases same : other = key
  · subst same
    simp
  · have different : compare key other ≠ .eq := by
      intro equal
      exact same (LawfulEqCmp.eq_of_compare equal).symm
    rw [if_neg different, Function.update_of_ne same]
    rfl

theorem slotsOf_injective : Function.Injective (slotsOf (κ := κ) (ρ := ρ)) := by
  intro left right equal
  apply ExtTreeMap.ext_getElem?
  exact fun key => congrFun equal key

/-- The records of a sorted map, in the order of their keys. -/
def valuesOf (records : ExtTreeMap κ ρ) : List ρ := records.toList.map Prod.snd

/-- The standing records are exactly the values of the map. -/
theorem mem_valuesOf
    {records : ExtTreeMap κ ρ}
    {record : ρ} :
    record ∈ valuesOf records ↔ ∃ key, slotsOf records key = some record := by
  simp only [valuesOf, List.mem_map, Prod.exists,
    ExtTreeMap.mem_toList_iff_getElem?_eq_some]
  constructor
  · rintro ⟨key, value, stands, rfl⟩
    exact ⟨key, stands⟩
  · rintro ⟨key, stands⟩
    exact ⟨key, record, stands, rfl⟩

/-- A map filled from a list in the order of the items' ranks holds, of the items with one key,
the one of the highest rank. -/
theorem mem_valuesOf_foldl_insert
    {α : Type*}
    [PartialOrder α]
    {key : ρ → κ}
    {rank : ρ → α}
    {items : List ρ}
    (sorted : items.Pairwise fun left right => rank left ≤ rank right)
    (apart : ∀ left ∈ items, ∀ right ∈ items, key left = key right → rank left = rank right →
      left = right) :
    record ∈ valuesOf (items.foldl (fun records item => records.insert (key item) item) ∅) ↔
      record ∈ items ∧ ∀ other ∈ items, key other = key record → rank other ≤ rank record := by
  suffices slots : ∀ slot, slotsOf
      (items.foldl (fun records item => records.insert (key item) item) ∅) slot = some record ↔
        (record ∈ items ∧ ∀ other ∈ items, key other = key record → rank other ≤ rank record) ∧
          key record = slot by
    rw [mem_valuesOf]
    simp only [slots, exists_and_left, exists_eq', and_true]
  induction items using List.reverseRecOn with
  | nil => simp [Slots.empty]
  | append_singleton items item inductionHypothesis =>
      intro slot
      rw [List.pairwise_append] at sorted
      have below (other : ρ) (member : other ∈ items) : rank other ≤ rank item :=
        sorted.2.2 other member item (List.mem_singleton_self item)
      have earlier := inductionHypothesis sorted.1 (fun left leftMember right rightMember =>
        apart left (List.mem_append_left _ leftMember) right
          (List.mem_append_left _ rightMember))
      rw [List.foldl_append, List.foldl_cons, List.foldl_nil, slotsOf_insert]
      by_cases same : slot = key item
      · subst same
        rw [Function.update_self, Option.some.injEq]
        constructor
        · rintro rfl
          refine ⟨⟨by simp, fun other member _ => ?_⟩, rfl⟩
          rcases List.mem_append.mp member with member | member
          · exact below other member
          · rw [List.mem_singleton.mp member]
        · rintro ⟨⟨member, highest⟩, keys⟩
          have above := highest item (by simp) keys.symm
          rcases List.mem_append.mp member with inside | last
          · exact apart item (by simp) record member keys.symm
              (above.antisymm (below record inside))
          · exact (List.mem_singleton.mp last).symm
      · rw [Function.update_of_ne same, earlier]
        refine and_congr_left fun keys => ?_
        have other : record ≠ item := fun equal => same (by rw [← keys, equal])
        have unlike : key item ≠ key record := fun equal => same (by rw [← keys, equal])
        simp [other, unlike, or_imp, forall_and]

/-- The values of a map whose records know their keys are sorted by key. -/
theorem valuesOf_pairwise
    {key : ρ → κ}
    (keyed : ∀ slot record, slotsOf records slot = some record → key record = slot) :
    (valuesOf records).Pairwise fun left right =>
      compare (key left) (key right) = .lt := by
  rw [valuesOf, List.pairwise_map]
  refine ExtTreeMap.ordered_keys_toList.imp_of_mem ?_
  intro left right leftMember rightMember ordered
  rw [ExtTreeMap.mem_toList_iff_getElem?_eq_some] at leftMember rightMember
  rwa [keyed left.1 left.2 leftMember, keyed right.1 right.2 rightMember]

theorem valuesOf_nodup
    {key : ρ → κ}
    (keyed : ∀ slot record, slotsOf records slot = some record → key record = slot) :
    (valuesOf records).Nodup := by
  refine (valuesOf_pairwise keyed).imp ?_
  rintro record _ ordered rfl
  simp [ReflCmp.compare_self] at ordered

/-- Searching a sorted list finds a matching element that no match precedes. -/
theorem find?_first
    {key : ρ → κ}
    {items : List ρ}
    {item : ρ}
    (sorted : items.Pairwise fun left right => compare (key left) (key right) = .lt)
    (found : items.find? accepts = some item) :
    item ∈ items ∧ accepts item = true ∧ ∀ other ∈ items, accepts other = true →
      other = item ∨ compare (key item) (key other) = .lt := by
  obtain ⟨accepted, before, after, rfl, rejected⟩ :=
    List.find?_eq_some_iff_append.mp found
  refine ⟨by simp, accepted, ?_⟩
  intro other member otherAccepted
  rcases List.mem_append.mp member with early | late
  · exact absurd otherAccepted (by simpa using rejected other early)
  · rcases List.mem_cons.mp late with rfl | late
    · exact Or.inl rfl
    · have tail := (List.pairwise_append.mp sorted).2.1
      exact Or.inr ((List.pairwise_cons.mp tail).1 other late)

/-- Let an item take its key when it is stronger than the present holder. -/
def keepLatest
    (key : ρ → κ)
    (rank : ρ → Ω)
    (winners : ExtTreeMap κ ρ)
    (item : ρ) : ExtTreeMap κ ρ :=
  match winners[key item]? with
  | none => winners.insert (key item) item
  | some current =>
      if rank current < rank item then winners.insert (key item) item else winners

/-- The strongest item of each key, the earliest one among equals. -/
def latestBy (key : ρ → κ) (rank : ρ → Ω) (items : List ρ) : ExtTreeMap κ ρ :=
  items.foldl (keepLatest key rank) ∅

/-- Rules without guards. -/
def Rules.unguarded (key : ρ → κ) (rank : ρ → Ω) : Rules κ ρ Ω where
  key := key
  rank := rank
  Barred _ _ := False
  Blocked _ _ := False

/-- Keeping the latest item is a step of the rules without guards. -/
theorem keepLatest_step
    (key : ρ → κ)
    (rank : ρ → Ω)
    (winners : ExtTreeMap κ ρ)
    (item : ρ) :
    ∃ outcome, (Rules.unguarded key rank).Step (slotsOf winners) item outcome
      (slotsOf (keepLatest key rank winners item)) := by
  unfold keepLatest
  split
  · rename_i vacant
    rw [slotsOf_insert]
    refine ⟨_, .applied id (fun current stands => ?_) id⟩
    exact absurd (vacant.symm.trans stands) (by simp)
  · rename_i current stands
    split
    · rename_i outranks
      rw [slotsOf_insert]
      refine ⟨_, .applied id (fun other otherStands => ?_) id⟩
      obtain rfl : current = other := Option.some.inj (stands.symm.trans otherStands)
      exact outranks
    · rename_i outranked
      exact ⟨_, .superseded id stands (le_of_not_gt outranked)⟩

/-- The table of the latest items is reached by the rules without guards. -/
theorem latestBy_run
    (key : ρ → κ)
    (rank : ρ → Ω)
    (items : List ρ) :
    (Rules.unguarded key rank).Run Slots.empty items
      (slotsOf (latestBy key rank items)) := by
  induction items using List.reverseRecOn with
  | nil =>
      rw [latestBy, List.foldl_nil, slotsOf_empty]
      exact .nil
  | append_singleton items item inductionHypothesis =>
      obtain ⟨outcome, step⟩ := keepLatest_step key rank (latestBy key rank items) item
      have run := inductionHypothesis.concat step
      rwa [latestBy, List.foldl_append]

/-- What the table of strongest items holds for a key is an item of that key
that no other exceeds. -/
theorem latestBy_sound
    {rank : ρ → Ω}
    {items : List ρ}
    {slot : κ}
    {item : ρ}
    (stands : slotsOf (latestBy key rank items) slot = some item) :
    item ∈ items ∧ key item = slot ∧
      ∀ other ∈ items, key other = slot → rank other ≤ rank item := by
  have run := latestBy_run key rank items
  refine ⟨?_, ?_, ?_⟩
  · exact (run.source stands).resolve_left (by simp [Slots.empty])
  · exact run.keyed (by simp [Rules.Keyed, Slots.empty]) slot item stands
  · rintro other member rfl
    obtain ⟨current, currentStands, bound⟩ := run.dominates member
    obtain rfl : current = item := Option.some.inj (currentStands.symm.trans stands)
    exact bound

/-- The table of strongest items holds something for the key of every item. -/
theorem latestBy_complete
    (key : ρ → κ)
    (rank : ρ → Ω)
    (member : item ∈ items) :
    ∃ winner, slotsOf (latestBy key rank items) (key item) = some winner := by
  obtain ⟨winner, stands, _⟩ := (latestBy_run key rank items).dominates member
  exact ⟨winner, stands⟩

/-- An identifier function known on finitely many records. -/
def lookupId [DecidableEq ρ] (table : List (ρ × String)) (record : ρ) : String :=
  (table.lookup record).getD ""

/-- The identifiers of a table without repetitions belong to its own records only. -/
theorem lookupId_unique [DecidableEq ρ]
    {record other : ρ}
    (distinct : (table.map Prod.snd).Nodup)
    (nonempty : "" ∉ table.map Prod.snd)
    (member : record ∈ table.map Prod.fst)
    (same : lookupId table other = lookupId table record) :
    other = record := by
  have listed : ∀ {item id}, table.lookup item = some id → (item, id) ∈ table := by
    intro item id found
    obtain ⟨before, after, rfl, _⟩ := List.lookup_eq_some_iff.mp found
    simp
  have injective := List.inj_on_of_nodup_map distinct
  cases found : table.lookup record with
  | none =>
      obtain ⟨entry, present, rfl⟩ := List.mem_map.mp member
      have := List.lookup_eq_none_iff.mp found entry present
      simp at this
  | some id =>
      cases otherFound : table.lookup other with
      | none =>
          simp only [lookupId, found, otherFound, Option.getD_none, Option.getD_some] at same
          exact absurd (List.mem_map_of_mem (listed found)) (same ▸ nonempty)
      | some otherId =>
          simp only [lookupId, found, otherFound, Option.getD_some] at same
          exact congrArg Prod.fst (injective (listed otherFound) (listed found) same)

/-- Standing records and the identifiers of every record taken in so far. -/
structure RecordView (κ ι ρ : Type*)
    [Ord κ] [TransOrd κ] [Ord ι] [TransOrd ι] where
  records : ExtTreeMap κ ρ
  recordIds : ExtTreeSet ι

namespace RecordView

/-- The view that has taken in nothing. -/
def empty : RecordView κ ι ρ where
  records := ∅
  recordIds := ∅

/-- The register file a view stands for. -/
def slots (view : RecordView κ ι ρ) : Slots κ ρ := slotsOf view.records

@[simp] theorem slots_empty : (empty : RecordView κ ι ρ).slots = Slots.empty :=
  slotsOf_empty

@[simp] theorem recordIds_empty : (empty : RecordView κ ι ρ).recordIds = ∅ := rfl

/-- Take in an identifier without changing the standing records. -/
def note (view : RecordView κ ι ρ) (id : ι) : RecordView κ ι ρ :=
  { view with recordIds := view.recordIds.insert id }

/-- Take in a record and let it stand under a key. -/
def place (view : RecordView κ ι ρ) (key : κ) (id : ι) (record : ρ) :
    RecordView κ ι ρ where
  records := view.records.insert key record
  recordIds := view.recordIds.insert id

@[simp] theorem slots_note (view : RecordView κ ι ρ) (id : ι) :
    (view.note id).slots = view.slots := rfl

@[simp] theorem recordIds_note (view : RecordView κ ι ρ) (id : ι) :
    (view.note id).recordIds = view.recordIds.insert id := rfl

@[simp] theorem slots_place
    (view : RecordView κ ι ρ)
    (key : κ)
    (id : ι)
    (record : ρ) :
    (view.place key id record).slots =
      Function.update view.slots key (some record) :=
  slotsOf_insert view.records key record

@[simp] theorem recordIds_place
    (view : RecordView κ ι ρ)
    (key : κ)
    (id : ι)
    (record : ρ) :
    (view.place key id record).recordIds = view.recordIds.insert id := rfl

theorem ext_slots
    {left right : RecordView κ ι ρ}
    (slots : left.slots = right.slots)
    (recordIds : left.recordIds = right.recordIds) :
    left = right := by
  obtain ⟨leftRecords, leftIds⟩ := left
  obtain ⟨rightRecords, rightIds⟩ := right
  obtain rfl : leftRecords = rightRecords := slotsOf_injective slots
  obtain rfl : leftIds = rightIds := recordIds
  rfl

/-- Offer the records of a log one after another, stopping at an error. -/
def replay {α : Type*}
    (apply : RecordView κ ι ρ → α → Except ε (Outcome × RecordView κ ι ρ)) :
    RecordView κ ι ρ → List α → Except ε (RecordView κ ι ρ)
  | view, [] => .ok view
  | view, record :: log =>
      match apply view record with
      | .error error => .error error
      | .ok (_, next) => replay apply next log

theorem replay_map {α β : Type*}
    (apply : RecordView κ ι ρ → β → Except ε (Outcome × RecordView κ ι ρ))
    (item : α → β)
    (view : RecordView κ ι ρ)
    (log : List α) :
    replay apply view (log.map item) =
      replay (fun view record => apply view (item record)) view log := by
  induction log generalizing view with
  | nil => rfl
  | cons record log inductionHypothesis =>
      simp only [List.map_cons, replay, inductionHypothesis]

/-- Offer one record and keep the view when it is refused. -/
def offer
    (apply : RecordView κ ι ρ → ρ → Except ε (Outcome × RecordView κ ι ρ))
    (view : RecordView κ ι ρ)
    (record : ρ) : RecordView κ ι ρ :=
  match apply view record with
  | .error _ => view
  | .ok (_, next) => next

/-- The two ways in which a view settles a record that it accepts and has not
seen: it notes a record that is outranked, and places one that wins. -/
def Settles
    (rules : Rules κ ρ Ω)
    (ident : ρ → ι)
    (view : RecordView κ ι ρ)
    (record : ρ)
    (result : Outcome × RecordView κ ι ρ) : Prop :=
  ¬rules.Barred view.slots record ∧
    ((∃ current, view.slots (rules.key record) = some current ∧
        rules.rank record ≤ rules.rank current ∧
        result = (.superseded, view.note (ident record))) ∨
      ((∀ current, view.slots (rules.key record) = some current →
          rules.rank current < rules.rank record) ∧
        ¬rules.Blocked view.slots record ∧
        result = (.applied, view.place (rules.key record) (ident record) record)))

/-- Settling a record is a step of the rules that takes in its identifier. -/
theorem settles_iff
    {rules : Rules κ ρ Ω}
    {view next : RecordView κ ι ρ}
    {record : ρ}
    {outcome : Outcome} :
    Settles rules ident view record (outcome, next) ↔
      rules.Step view.slots record outcome next.slots ∧
        next.recordIds = view.recordIds.insert (ident record) := by
  constructor
  · rintro ⟨admitted, ⟨current, stands, outranked, equal⟩ | ⟨outranks, unblocked, equal⟩⟩
    · obtain ⟨rfl, rfl⟩ := Prod.mk.inj equal
      exact ⟨.superseded admitted stands outranked, rfl⟩
    · obtain ⟨rfl, rfl⟩ := Prod.mk.inj equal
      refine ⟨?_, rfl⟩
      rw [slots_place]
      exact .applied admitted outranks unblocked
  · rintro ⟨step, ids⟩
    generalize next_eq : next.slots = nextSlots at step
    cases step with
    | superseded admitted stands outranked =>
        obtain rfl : next = view.note (ident record) := ext_slots next_eq ids
        exact ⟨admitted, Or.inl ⟨_, stands, outranked, rfl⟩⟩
    | applied admitted outranks unblocked =>
        obtain rfl : next = view.place (rules.key record) (ident record) record :=
          ext_slots (next_eq.trans (slots_place _ _ _ _).symm) ids
        exact ⟨admitted, Or.inr ⟨outranks, unblocked, rfl⟩⟩

/-- An apply function refines rules when it accepts exactly their steps on
records whose identifier is new and reports every other accepted record as a
duplicate. -/
structure Refines
    (rules : Rules κ ρ Ω)
    (ident : ρ → ι)
    (apply : RecordView κ ι ρ → ρ → Except ε (Outcome × RecordView κ ι ρ)) :
    Prop where
  fresh : ∀ {view : RecordView κ ι ρ} {record : ρ}, ident record ∉ view.recordIds →
    ∀ outcome next, apply view record = .ok (outcome, next) ↔
      rules.Step view.slots record outcome next.slots ∧
        next.recordIds = view.recordIds.insert (ident record)
  seen : ∀ {view : RecordView κ ι ρ} {record : ρ}, ident record ∈ view.recordIds →
    ∀ {outcome next}, apply view record = .ok (outcome, next) →
      outcome = .duplicate ∧ next = view

variable {rules : Rules κ ρ Ω} {ident : ρ → ι}
variable {apply : RecordView κ ι ρ → ρ → Except ε (Outcome × RecordView κ ι ρ)}

/-- An apply function that settles new records and knows seen ones refines the
rules. -/
theorem Refines.of_settles
    (settles : ∀ {view : RecordView κ ι ρ} {record : ρ},
      ident record ∉ view.recordIds →
        ∀ result, apply view record = .ok result ↔
          Settles rules ident view record result)
    (seen : ∀ {view : RecordView κ ι ρ} {record : ρ},
      ident record ∈ view.recordIds → ∀ {result}, apply view record = .ok result →
        result = (.duplicate, view)) :
    Refines rules ident apply where
  fresh new outcome next := (settles new (outcome, next)).trans settles_iff
  seen := by
    intro view record noted outcome next accepted
    exact Prod.mk.inj (seen noted accepted)

/-- The register file reached by a step is that of a sorted map. -/
theorem exists_slotsOf_of_step
    {records : ExtTreeMap κ ρ}
    {outcome : Outcome}
    {nextSlots : Slots κ ρ}
    (step : rules.Step (slotsOf records) record outcome nextSlots) :
    ∃ next : ExtTreeMap κ ρ, slotsOf next = nextSlots := by
  cases step with
  | superseded => exact ⟨records, rfl⟩
  | applied => exact ⟨_, slotsOf_insert _ _ _⟩

/-- An offer finds the record seen, refuses it, or takes a step. -/
theorem Refines.offer_cases
    (refines : Refines rules ident apply)
    (view : RecordView κ ι ρ)
    (record : ρ) :
    (ident record ∈ view.recordIds ∧ offer apply view record = view) ∨
      (ident record ∉ view.recordIds ∧ offer apply view record = view ∧
        (rules.Barred view.slots record ∨
          rules.Blocked view.slots record ∧
            ∀ current, view.slots (rules.key record) = some current →
              rules.rank current < rules.rank record)) ∨
      (ident record ∉ view.recordIds ∧
        (offer apply view record).recordIds = view.recordIds.insert (ident record) ∧
        ∃ outcome, rules.Step view.slots record outcome (offer apply view record).slots) := by
  unfold offer
  by_cases seen : ident record ∈ view.recordIds
  · refine Or.inl ⟨seen, ?_⟩
    split
    · rfl
    · rename_i accepted
      exact (refines.seen seen accepted).2
  · refine Or.inr ?_
    split
    · rename_i error refused
      refine Or.inl ⟨seen, rfl, ?_⟩
      refine (rules.refused_or_step view.slots record).resolve_right ?_
      rintro ⟨outcome, nextSlots, step⟩
      obtain ⟨records, rfl⟩ := exists_slotsOf_of_step step
      have accepted := (refines.fresh seen outcome
        ⟨records, view.recordIds.insert (ident record)⟩).mpr ⟨step, rfl⟩
      rw [refused] at accepted
      simp at accepted
    · rename_i outcome next accepted
      obtain ⟨step, ids⟩ := (refines.fresh seen outcome next).mp accepted
      exact Or.inr ⟨seen, ids, outcome, step⟩

/-- Taking in the head of a log of distinct identifiers keeps its tail new. -/
theorem fresh_tail
    {record : ρ}
    {ids : ExtTreeSet ι}
    (distinct : ((record :: log).map ident).Nodup)
    (fresh : ∀ other ∈ record :: log, ident other ∉ ids) :
    ∀ other ∈ log, ident other ∉ ids.insert (ident record) := by
  simp only [List.map_cons, List.nodup_cons] at distinct
  intro other member noted
  rw [ExtTreeSet.mem_insert] at noted
  rcases noted with same | noted
  · apply distinct.1
    rw [LawfulEqCmp.eq_of_compare same]
    exact List.mem_map_of_mem member
  · exact fresh other (List.mem_cons_of_mem _ member) noted

/-- A replayed log of new, distinct identifiers is a run of the rules. -/
theorem Refines.run_of_replay
    (refines : Refines rules ident apply)
    {view final : RecordView κ ι ρ}
    (distinct : (log.map ident).Nodup)
    (fresh : ∀ record ∈ log, ident record ∉ view.recordIds)
    (replayed : replay apply view log = .ok final) :
    rules.Run view.slots log final.slots := by
  induction log generalizing view with
  | nil =>
      simp only [replay, Except.ok.injEq] at replayed
      subst replayed
      exact .nil
  | cons record log inductionHypothesis =>
      unfold replay at replayed
      split at replayed
      · simp at replayed
      · rename_i outcome next applied
        obtain ⟨step, ids⟩ :=
          (refines.fresh (fresh record List.mem_cons_self) _ _).mp applied
        refine .cons step (inductionHypothesis (List.nodup_cons.mp distinct).2 ?_ replayed)
        rw [ids]
        exact fresh_tail distinct fresh

/-- A run of the rules over new, distinct identifiers replays, and the view
has then taken in exactly the identifiers of the log. -/
theorem Refines.replay_of_run
    (refines : Refines rules ident apply)
    {log : List ρ}
    {target : ExtTreeMap κ ρ}
    (distinct : (log.map ident).Nodup)
    (fresh : ∀ record ∈ log, ident record ∉ view.recordIds)
    (run : rules.Run view.slots log (slotsOf target)) :
    ∃ final : RecordView κ ι ρ,
      replay apply view log = .ok final ∧ final.records = target ∧
        ∀ id, id ∈ final.recordIds ↔ id ∈ view.recordIds ∨ id ∈ log.map ident := by
  induction log generalizing view with
  | nil =>
      refine ⟨view, rfl, ?_, by simp⟩
      apply slotsOf_injective
      generalize start_eq : view.slots = start at run
      cases run
      exact start_eq
  | cons record log inductionHypothesis =>
      generalize start_eq : view.slots = start at run
      cases run with
      | @cons _ nextSlots _ _ outcome _ step rest =>
          subst start_eq
          obtain ⟨records, rfl⟩ := exists_slotsOf_of_step step
          let next : RecordView κ ι ρ :=
            ⟨records, view.recordIds.insert (ident record)⟩
          have applied : apply view record = .ok (outcome, next) :=
            (refines.fresh (fresh record List.mem_cons_self) outcome next).mpr ⟨step, rfl⟩
          obtain ⟨final, replayed, records_eq, ids⟩ :=
            @inductionHypothesis next (List.nodup_cons.mp distinct).2
              (fresh_tail distinct fresh) rest
          refine ⟨final, by simp only [replay, applied, replayed], records_eq, ?_⟩
          intro id
          rw [ids id, ExtTreeSet.mem_insert, LawfulEqCmp.compare_eq_iff_eq]
          simp only [List.map_cons, List.mem_cons]
          tauto

end RecordView

end Replication
