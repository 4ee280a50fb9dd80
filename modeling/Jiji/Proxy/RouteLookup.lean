import Jiji.Proxy.Server

/-!
# Which route serves a request

The routes of a host are kept sorted, so the first one that matches the path of a request has
the longest prefix.  A host without a match falls back to the wildcard that covers it.  After
any sequence of changes this finds the best of the routes that were applied and not removed.
-/

namespace Jiji
namespace Proxy

/-- The route serves requests for a path. -/
def RouteEntry.serves (path : String) (entry : RouteEntry) : Bool :=
  match entry.pathPrefix with
  | some pathPrefix => pathPrefix.toList.isPrefixOf path.toList
  | none => true

def selectEntry (entries : List RouteEntry) (path : String) : Option RouteEntry :=
  entries.find? (RouteEntry.serves path)

namespace RouteManager

def lookup (manager : RouteManager) (host path : String) : Option RouteEntry :=
  match manager.routes[host]?.bind fun routes => selectEntry routes.entries path with
  | some entry => some entry
  | none =>
      (parentWildcardKey host).bind fun key =>
        manager.routes[key]?.bind fun routes => selectEntry routes.entries path

/-- What removing a route answers: whether there was one. -/
def removes (manager : RouteManager) (host : String) (pathPrefix : Option String) : Bool :=
  match manager.routes[host]? with
  | none => false
  | some routes => (routes.drop pathPrefix).entries.length ≠ routes.entries.length

end RouteManager

/-- The route that a request asks for. -/
def RouteApply.entry (request : RouteApply) (tls : Bool) : RouteEntry where
  dnsServer := request.dnsServer
  name := request.name
  port := request.port
  pathPrefix := request.pathPrefix
  tls := tls
  refreshInterval := max request.refreshIntervalSecs 1
  healthCheckInterval :=
    (request.healthCheck.map HealthCheckSpec.ofRequest).map HealthCheckSpec.interval

/-- A change of the routes. -/
inductive RouteCall
  | apply (request : RouteApply) (tls : Bool)
  | remove (host : String) (pathPrefix : Option String)

/-- The routes after a change. -/
def RouteCall.perform (manager : RouteManager) : RouteCall → RouteManager
  | .apply request tls => manager.apply request tls
  | .remove host pathPrefix => manager.remove host pathPrefix

/-- The live routes after a change, by host and path prefix. -/
def RouteCall.revise (live : String × Option String → Option RouteEntry) :
    RouteCall → String × Option String → Option RouteEntry
  | .apply request tls =>
      Function.update live (request.host, request.pathPrefix) (some (request.entry tls))
  | .remove host pathPrefix => Function.update live (host, pathPrefix) none

/-- The routes that were applied last and not removed. -/
def liveRoutes (calls : List RouteCall) : String × Option String → Option RouteEntry :=
  calls.foldl RouteCall.revise fun _ => none

/-- Routes rank by the length of their path prefix, and a route without one ranks below all
others. -/
def RouteEntry.rank (entry : RouteEntry) : ℕ :=
  entry.pathPrefix.elim 0 fun pathPrefix => pathPrefix.utf8ByteSize + 1

/-- The longest live route of a host that serves a path. -/
def Longest
    (live : String × Option String → Option RouteEntry)
    (host path : String)
    (entry : RouteEntry) : Prop :=
  (∃ pathPrefix, live (host, pathPrefix) = some entry) ∧ entry.serves path = true ∧
    ∀ pathPrefix other, live (host, pathPrefix) = some other → other.serves path = true →
      other.rank ≤ entry.rank

section Order

/-- The order of the routes is that of their ranks. -/
theorem precedes_iff {left right : RouteEntry} :
    precedes left right = true ↔ right.rank ≤ left.rank := by
  unfold precedes RouteEntry.rank
  cases left.pathPrefix with
  | none => cases right.pathPrefix <;> simp
  | some own => cases right.pathPrefix <;> simp

theorem sortByPrefixLengthDescending_pairwise (entries : List RouteEntry) :
    (sortByPrefixLengthDescending entries).Pairwise fun left right => right.rank ≤ left.rank := by
  have total : Std.Total fun left right : RouteEntry => precedes left right = true :=
    ⟨fun left right => by simpa only [precedes_iff] using le_total right.rank left.rank⟩
  have trans : IsTrans RouteEntry fun left right => precedes left right = true :=
    ⟨fun first second third => by
      simpa only [precedes_iff] using fun earlier later => le_trans later earlier⟩
  refine List.Pairwise.imp precedes_iff.mp ?_
  exact List.pairwise_insertionSort _ entries

/-- Two routes that serve one path and have the same rank have the same prefix. -/
theorem pathPrefix_eq_of_rank
    {left right : RouteEntry}
    (leftServes : left.serves path = true)
    (rightServes : right.serves path = true)
    (same : left.rank = right.rank) :
    left.pathPrefix = right.pathPrefix := by
  have sized {short long : String} (shorter : short.toList <+: long.toList)
      (same : short.utf8ByteSize = long.utf8ByteSize) : short = long := by
    obtain ⟨rest, split⟩ := shorter
    have whole : short ++ String.ofList rest = long := by
      rw [← String.toList_inj, String.toList_append, String.toList_ofList, split]
    rw [← whole, String.utf8ByteSize_append] at same
    have empty : String.ofList rest = "" := String.utf8ByteSize_eq_zero_iff.mp (by omega)
    rw [← whole, empty, String.append_empty]
  unfold RouteEntry.serves at leftServes rightServes
  unfold RouteEntry.rank at same
  cases leftPrefix : left.pathPrefix with
  | none =>
      cases rightPrefix : right.pathPrefix with
      | none => rfl
      | some longer => simp [leftPrefix, rightPrefix] at same
  | some own =>
      cases rightPrefix : right.pathPrefix with
      | none => simp [leftPrefix, rightPrefix] at same
      | some other =>
          simp only [leftPrefix, rightPrefix, List.isPrefixOf_iff_prefix, Option.elim_some,
            Nat.add_right_cancel_iff] at leftServes rightServes same
          rcases List.prefix_or_prefix_of_prefix leftServes rightServes with shorter | longer
          · rw [sized shorter same]
          · rw [sized longer same.symm]

/-- In a sorted list of routes with distinct prefixes the first match has the largest rank. -/
theorem selectEntry_eq_some_iff
    {routes : HostRoutes}
    {entry : RouteEntry}
    (sorted : routes.entries.Pairwise fun left right => right.rank ≤ left.rank) :
    selectEntry routes.entries path = some entry ↔
      entry ∈ routes.entries ∧ entry.serves path = true ∧
        ∀ other ∈ routes.entries, other.serves path = true → other.rank ≤ entry.rank := by
  have first {found : RouteEntry} (selects : selectEntry routes.entries path = some found) :
      ∀ other ∈ routes.entries, other.serves path = true → other.rank ≤ found.rank := by
    intro other member serves
    obtain ⟨_, earlier, later, split, unserved⟩ := List.find?_eq_some_iff_append.mp selects
    rw [split] at member sorted
    rcases List.mem_append.mp member with before | after
    · have unselected := unserved other before
      simp [serves] at unselected
    · rcases List.mem_cons.mp after with rfl | rest
      · exact le_rfl
      · exact List.rel_of_pairwise_cons (List.pairwise_append.mp sorted).2.1 rest
  constructor
  · intro selects
    exact ⟨List.mem_of_find?_eq_some selects, List.find?_some selects, first selects⟩
  · rintro ⟨member, serves, longest⟩
    obtain ⟨found, selects⟩ := Option.isSome_iff_exists.mp
      (List.find?_isSome.mpr ⟨entry, member, serves⟩)
    have foundMember := List.mem_of_find?_eq_some selects
    have foundServes := List.find?_some selects
    have same := le_antisymm (longest found foundMember foundServes) (first selects entry member serves)
    rw [← List.inj_on_of_nodup_map routes.distinct foundMember member
      (pathPrefix_eq_of_rank foundServes serves same)]
    exact selects

end Order

section Wildcard

/-- A wildcard covers a host that has a label, a dot and something after it. -/
theorem parentWildcardKey_eq_some_iff {host key : String} :
    parentWildcardKey host = some key ↔
      ∃ label rest, host = label ++ "." ++ rest ∧ '.' ∉ label.toList ∧ rest ≠ "" ∧
        key = "*." ++ rest := by
  unfold parentWildcardKey
  constructor
  · intro covers
    split at covers
    · rename_i character rest dropped
      have whole : host.toList.takeWhile (· ≠ '.') ++ '.' :: character :: rest = host.toList := by
        rw [← dropped, List.takeWhile_append_dropWhile]
      refine ⟨String.ofList (host.toList.takeWhile (· ≠ '.')), String.ofList (character :: rest),
        ?_, ?_, ?_, (Option.some.inj covers).symm⟩
      · simp only [← String.toList_inj, String.toList_append, String.toList_ofList,
          List.append_assoc]
        exact whole.symm
      · intro member
        rw [String.toList_ofList] at member
        simpa using List.mem_takeWhile_imp member
      · simp [← String.toList_inj]
    · cases covers
  · rintro ⟨label, rest, rfl, undotted, nonempty, rfl⟩
    have passes : ∀ character ∈ label.toList, decide (character ≠ '.') = true := by
      intro character member
      simpa using fun same : character = '.' => undotted (same ▸ member)
    rw [String.toList_append, String.toList_append, List.append_assoc,
      List.dropWhile_append_of_pos passes]
    cases characters : rest.toList with
    | nil => exact absurd (String.toList_eq_nil_iff.mp characters) nonempty
    | cons character others =>
        have same : String.ofList (character :: others) = rest := by
          rw [← characters, String.ofList_toList]
        simp [same]

end Wildcard

namespace RouteManager

/-- Every host has its routes in order. -/
def Sorted (manager : RouteManager) : Prop :=
  ∀ (host : String) (routes : HostRoutes), manager.routes[host]? = some routes →
    routes.entries.Pairwise fun left right => right.rank ≤ left.rank

variable {manager : RouteManager} {host path : String} {entry : RouteEntry}

theorem Sorted.perform (sorted : manager.Sorted) (call : RouteCall) :
    (call.perform manager).Sorted := by
  intro host routes present
  cases call with
  | apply request tls =>
      simp only [RouteCall.perform, apply, Std.ExtTreeMap.getElem?_insert] at present
      split at present
      · rw [← Option.some.inj present]
        exact sortByPrefixLengthDescending_pairwise _
      · exact sorted host routes present
  | remove changed pathPrefix =>
      simp only [RouteCall.perform, remove] at present
      split at present
      · exact sorted host routes present
      · rename_i before found
        split at present
        · simp only [Std.ExtTreeMap.getElem?_erase] at present
          split at present
          · cases present
          · exact sorted host routes present
        · simp only [Std.ExtTreeMap.getElem?_insert] at present
          split at present
          · rw [← Option.some.inj present]
            exact (sorted changed before found).sublist List.filter_sublist
          · exact sorted host routes present

/-- A change of the tables is a change of the live routes. -/
theorem route_perform (call : RouteCall) :
    (call.perform manager).route = call.revise manager.route := by
  funext place
  cases call with
  | apply request tls =>
      by_cases same : place = (request.host, request.pathPrefix)
      · subst same
        rw [RouteCall.revise, Function.update_self, RouteCall.perform, routes_apply, if_pos rfl]
        exact HostRoutes.find_put_self
      · rw [RouteCall.revise, Function.update_of_ne same]
        exact route_apply_of_ne same
  | remove host pathPrefix =>
      by_cases same : place = (host, pathPrefix)
      · subst same
        rw [RouteCall.revise, Function.update_self]
        exact route_remove_self
      · rw [RouteCall.revise, Function.update_of_ne same]
        exact route_remove_of_ne same

theorem sorted_route_foldl
    (calls : List RouteCall)
    (sorted : manager.Sorted) :
    (calls.foldl RouteCall.perform manager).Sorted ∧
      (calls.foldl RouteCall.perform manager).route =
        calls.foldl RouteCall.revise manager.route := by
  induction calls generalizing manager with
  | nil => exact ⟨sorted, rfl⟩
  | cons call calls inductionHypothesis =>
      rw [List.foldl_cons, List.foldl_cons, ← route_perform]
      exact inductionHypothesis (sorted.perform call)

/-- The listed routes of a host are the live ones. -/
theorem mem_entries_iff
    {routes : HostRoutes}
    (present : manager.routes[host]? = some routes) :
    entry ∈ routes.entries ↔ ∃ pathPrefix, manager.route (host, pathPrefix) = some entry := by
  simp only [route, present, Option.bind_some, HostRoutes.find_eq_some_iff]
  constructor
  · exact fun member => ⟨_, member, rfl⟩
  · rintro ⟨_, member, _⟩
    exact member

theorem select_eq_some_iff (sorted : manager.Sorted) :
    (manager.routes[host]?.bind fun routes => selectEntry routes.entries path) = some entry ↔
      Longest manager.route host path entry := by
  cases present : manager.routes[host]? with
  | none => simp [Longest, route, present]
  | some routes =>
      rw [Option.bind_some, selectEntry_eq_some_iff (sorted host routes present)]
      simp only [mem_entries_iff present, Longest, forall_exists_index]
      exact and_congr_right fun _ => and_congr_right fun _ => forall_comm

theorem select_eq_none_iff :
    (manager.routes[host]?.bind fun routes => selectEntry routes.entries path) = none ↔
      ∀ pathPrefix other, manager.route (host, pathPrefix) = some other →
        other.serves path = false := by
  cases present : manager.routes[host]? with
  | none => simp [route, present]
  | some routes =>
      simp only [Option.bind_some, selectEntry, List.find?_eq_none, Bool.not_eq_true,
        mem_entries_iff present, forall_exists_index]
      exact forall_comm

/-- Removing a route answers whether it was live. -/
theorem removes_iff {pathPrefix : Option String} :
    manager.removes host pathPrefix = true ↔ manager.route (host, pathPrefix) ≠ none := by
  unfold removes
  cases present : manager.routes[host]? with
  | none => simp [route, present]
  | some routes =>
      simp only [HostRoutes.drop, route, present, Option.bind_some, HostRoutes.find,
        decide_eq_true_eq, ne_eq, List.length_filter_eq_length_iff, List.find?_eq_none]

end RouteManager

/-- A request is served by the longest live prefix of its host, or of the wildcard that covers
the host, and removing a route answers whether it was live. -/
theorem lookup_finds_longest_prefix
    (certStore : Option CertStore)
    (calls : List RouteCall)
    (host path : String) :
    let manager := calls.foldl RouteCall.perform ⟨∅, ∅, certStore⟩
    (∀ entry, manager.lookup host path = some entry ↔
      Longest (liveRoutes calls) host path entry ∨
        (∀ pathPrefix other, liveRoutes calls (host, pathPrefix) = some other →
          other.serves path = false) ∧
        ∃ label rest, host = label ++ "." ++ rest ∧ '.' ∉ label.toList ∧ rest ≠ "" ∧
          Longest (liveRoutes calls) ("*." ++ rest) path entry) ∧
    ∀ pathPrefix, manager.removes host pathPrefix = true ↔
      liveRoutes calls (host, pathPrefix) ≠ none := by
  intro manager
  obtain ⟨sorted, routes⟩ : manager.Sorted ∧ manager.route = liveRoutes calls :=
    RouteManager.sorted_route_foldl calls fun host routes present => by simp at present
  rw [← routes]
  refine ⟨fun entry => ?_, fun pathPrefix => RouteManager.removes_iff⟩
  unfold RouteManager.lookup
  cases selects : manager.routes[host]?.bind fun routes => selectEntry routes.entries path with
  | some found =>
      have longest := (RouteManager.select_eq_some_iff sorted).mp selects
      constructor
      · rintro ⟨⟩
        exact Or.inl longest
      · rintro (best | ⟨unserved, _⟩)
        · exact selects.symm.trans ((RouteManager.select_eq_some_iff sorted).mpr best)
        · rw [RouteManager.select_eq_none_iff.mpr unserved] at selects
          cases selects
  | none =>
      have unserved := RouteManager.select_eq_none_iff.mp selects
      simp only [Option.bind_eq_some_iff, parentWildcardKey_eq_some_iff,
        ← RouteManager.select_eq_some_iff sorted, selects]
      constructor
      · rintro ⟨_, ⟨label, rest, split, undotted, nonempty, rfl⟩, best⟩
        exact Or.inr ⟨unserved, label, rest, split, undotted, nonempty, best⟩
      · rintro (⟨⟨⟩⟩ | ⟨_, label, rest, split, undotted, nonempty, best⟩)
        exact ⟨_, ⟨label, rest, split, undotted, nonempty, rfl⟩, best⟩

end Proxy
end Jiji
