import Jiji.Proxy.RouteOwnership

/-!
# Ordered and static certificates

A certificate that an operator has placed and reloaded is not to be replaced by one that the
proxy orders itself, and one that the proxy has ordered is to be ordered again before it ends.
An order takes long, so the first depends on what is reloaded while it is under way.  Where a
certificate came from is kept in memory only, so the second depends on what is read from the
directory afterwards.
-/

namespace Jiji
namespace Proxy

open Network Control

section Effects

/-- The host that a certificate is being ordered or stored for. -/
def AcmePhase.target : AcmePhase → Option String
  | .waiting => none
  | .checking _ => none
  | .ordering host _ => some host
  | .storing host _ _ _ _ _ _ => some host

/-- What an event may do to the certificates: nothing, begin an order that is due, serve a
pair of the directory, place a file, write a file of an order, or serve what was ordered. -/
inductive CertEffect (ssl : OpenSsl) (settings : ProxySettings) (server : ProxyServer) :
    ProxyEvent → ProxyServer → Prop
  | idle {event : ProxyEvent} {next : ProxyServer} :
      next.manager.certStore = server.manager.certStore →
      (next.acme.target = none ∨ next.acme.target = server.acme.target) →
      CertEffect ssl settings server event next
  | order {next : ProxyServer} {store : CertStore} {host : String} :
      server.manager.certStore = some store →
      store.needsIssuance ssl server.now host settings.renewBefore = true →
      next.manager.certStore = some store → next.acme.target = some host →
      CertEffect ssl settings server .visit next
  | reload {position : ℕ} {discovery : Except String Unit} {request : RouteApply}
      {next : ProxyServer} {store : CertStore} {cert : X509} {key : PKey} :
      server.calls[position]? = some ⟨.routeApply request, .arrived⟩ →
      request.reloadCertificate = true → server.manager.certStore = some store →
      next.manager.certStore = some (store.insert request.host ⟨cert, key, .static⟩) →
      next.acme = server.acme →
      CertEffect ssl settings server (.proceed position discovery) next
  | placeCrt {host pem : String} {next : ProxyServer} {store : CertStore} :
      server.manager.certStore = some store →
      next.manager.certStore = some (store.writeCrt host pem) → next.acme = server.acme →
      CertEffect ssl settings server (.placeCrt host pem) next
  | placeKey {host pem : String} {next : ProxyServer} {store : CertStore} :
      server.manager.certStore = some store →
      next.manager.certStore = some (store.writeKey host pem) → next.acme = server.acme →
      CertEffect ssl settings server (.placeKey host pem) next
  | writeCrt {host pem : String} {written : Bool} {next : ProxyServer} {store : CertStore} :
      server.acme.target = some host → server.manager.certStore = some store →
      next.manager.certStore = some (store.writeCrt host pem) →
      next.acme.target = some host →
      CertEffect ssl settings server (.store written) next
  | writeKey {host pem : String} {written : Bool} {next : ProxyServer} {store : CertStore} :
      server.acme.target = some host → server.manager.certStore = some store →
      next.manager.certStore = some (store.writeKey host pem) →
      next.acme.target = some host →
      CertEffect ssl settings server (.store written) next
  | serve {host : String} {written : Bool} {next : ProxyServer} {store : CertStore}
      {cert : X509} {key : PKey} :
      server.acme.target = some host → server.manager.certStore = some store →
      next.manager.certStore = some (store.insert host ⟨cert, key, .acme⟩) →
      next.acme.target = none →
      CertEffect ssl settings server (.store written) next

variable {ssl : OpenSsl} {settings : ProxySettings} {server next : ProxyServer}
variable {event : ProxyEvent} {store : CertStore}

theorem certStore_remove (manager : RouteManager) (host : String) (pathPrefix : Option String) :
    (manager.remove host pathPrefix).certStore = manager.certStore := by
  unfold RouteManager.remove
  split
  · rfl
  · dsimp only
    split
    · rfl
    · rfl

/-- What a reload does to the certificates. -/
theorem certStore_of_reload
    {manager reloaded : RouteManager}
    (reloads : manager.reloadStaticCertificate ssl host = .ok reloaded) :
    ∃ store cert key, manager.certStore = some store ∧
      reloaded.certStore = some (store.insert host ⟨cert, key, .static⟩) := by
  unfold RouteManager.reloadStaticCertificate at reloads
  split at reloads
  · cases reloads
  · rename_i store present
    cases read : store.reloadStatic ssl host with
    | error error =>
        rw [read] at reloads
        cases reloads
    | ok updated =>
        rw [read] at reloads
        obtain ⟨cert, key, rfl⟩ := CertStore.reloadStatic_eq_ok read
        cases reloads
        exact ⟨store, cert, key, present, rfl⟩

theorem effect_of_proceed
    {position : ℕ}
    (advanced : server.advance ssl settings (.proceed position discovery) = some next) :
    CertEffect ssl settings server (.proceed position discovery) next := by
  obtain ⟨call, found, proceeds⟩ := Option.bind_eq_some_iff.mp advanced
  obtain ⟨⟨manager, stage⟩, sectioned, rfl⟩ := Option.map_eq_some_iff.mp proceeds
  cases call.effect_of_nextSection sectioned with
  | reload request asked reloads =>
      obtain ⟨store, cert, key, present, updated⟩ := certStore_of_reload reloads
      exact .reload found asked present updated rfl
  | remove host pathPrefix => exact .idle (certStore_remove _ host pathPrefix) (Or.inr rfl)
  | look request => exact .idle rfl (Or.inr rfl)
  | apply request tls => exact .idle rfl (Or.inr rfl)
  | tcpCheck request passes => exact .idle rfl (Or.inr rfl)
  | tcpInsert request => exact .idle rfl (Or.inr rfl)
  | tcpRemove listenPort => exact .idle rfl (Or.inr rfl)
  | quiet _ _ => exact .idle rfl (Or.inr rfl)

theorem effect_of_acmeStep
    (present : server.manager.certStore = some store)
    (stepped : server.acmeStep ssl settings store event = some next) :
    CertEffect ssl settings server event next := by
  cases event with
  | check hosts =>
      simp only [ProxyServer.acmeStep, Option.ite_none_right_eq_some, Option.some.injEq] at stepped
      rw [← stepped.2]
      exact .idle rfl (Or.inl rfl)
  | visit =>
      simp only [ProxyServer.acmeStep] at stepped
      split at stepped
      · cases stepped
        exact .idle rfl (Or.inl rfl)
      · split at stepped
        · rename_i due
          cases stepped
          exact .order present due present rfl
        · cases stepped
          exact .idle rfl (Or.inl rfl)
      · cases stepped
  | conclude order =>
      simp only [ProxyServer.acmeStep] at stepped
      split at stepped
      · cases stepped
        exact .idle rfl (Or.inl rfl)
      · rename_i ordering
        split at stepped
        · cases stepped
          exact .idle rfl (Or.inl rfl)
        · cases stepped
          exact .idle rfl (Or.inr (by rw [ordering]; rfl))
      · cases stepped
  | store written =>
      simp only [ProxyServer.acmeStep] at stepped
      split at stepped
      · rename_i storing
        split at stepped
        · cases stepped
          exact .writeCrt (by rw [storing]; rfl) present rfl rfl
        · cases stepped
          exact .idle rfl (Or.inl rfl)
      · rename_i storing
        split at stepped
        · cases stepped
          exact .writeKey (by rw [storing]; rfl) present rfl rfl
        · cases stepped
          exact .idle rfl (Or.inl rfl)
      · rename_i storing
        cases stepped
        exact .serve (by rw [storing]; rfl) present rfl rfl
      · cases stepped
  | arrive request => cases stepped
  | proceed position discovery => cases stepped
  | placeCrt host pem => cases stepped
  | placeKey host pem => cases stepped
  | wait seconds => cases stepped
  | restart => cases stepped

theorem effect_of_advance
    (advanced : server.advance ssl settings event = some next)
    (stays : event ≠ .restart) :
    CertEffect ssl settings server event next := by
  cases event with
  | restart => exact absurd rfl stays
  | proceed position discovery => exact effect_of_proceed advanced
  | arrive request =>
      cases advanced
      exact .idle rfl (Or.inr rfl)
  | wait seconds =>
      cases advanced
      exact .idle rfl (Or.inr rfl)
  | placeCrt host pem =>
      obtain ⟨store, present, rfl⟩ := Option.map_eq_some_iff.mp advanced
      exact .placeCrt present rfl rfl
  | placeKey host pem =>
      obtain ⟨store, present, rfl⟩ := Option.map_eq_some_iff.mp advanced
      exact .placeKey present rfl rfl
  | check hosts =>
      obtain ⟨store, present, stepped⟩ := Option.bind_eq_some_iff.mp advanced
      exact effect_of_acmeStep present stepped
  | visit =>
      obtain ⟨store, present, stepped⟩ := Option.bind_eq_some_iff.mp advanced
      exact effect_of_acmeStep present stepped
  | conclude order =>
      obtain ⟨store, present, stepped⟩ := Option.bind_eq_some_iff.mp advanced
      exact effect_of_acmeStep present stepped
  | store written =>
      obtain ⟨store, present, stepped⟩ := Option.bind_eq_some_iff.mp advanced
      exact effect_of_acmeStep present stepped

end Effects

section Static

variable {ssl : OpenSsl} {settings : ProxySettings} {server next : ProxyServer}
variable {event : ProxyEvent} {host : String}

namespace ProxyServer

/-- A host has a static certificate of its own. -/
def ServesStatic (server : ProxyServer) (host : String) : Prop :=
  ∃ store entry, server.manager.certStore = some store ∧ store.entries host = some entry ∧
    entry.source = .static

/-- The contents of the files of a host. -/
def files (server : ProxyServer) (host : String) : Option (Option String × Option String) :=
  server.manager.certStore.map fun store => (store.dir.crt host, store.dir.key host)

/-- The proxy keeps running, and no request reloads the certificate of a host while one is
being ordered or stored for it. -/
def ReloadsApart (server : ProxyServer) (event : ProxyEvent) : Prop :=
  event ≠ .restart ∧
    ∀ position discovery request, event = .proceed position discovery →
      server.calls[position]? = some ⟨.routeApply request, .arrived⟩ →
      request.reloadCertificate = true → server.acme.target ≠ some request.host

/-- A certificate is ordered only for a host without a static one. -/
def OrdersApart (server : ProxyServer) : Prop :=
  ∀ host, server.acme.target = some host → ¬ server.ServesStatic host

theorem servesStatic_of_entries
    (present : server.manager.certStore = some store)
    (nextPresent : next.manager.certStore = some updated)
    (entries : updated.entries host = store.entries host) :
    next.ServesStatic host ↔ server.ServesStatic host := by
  simp only [ServesStatic, present, nextPresent, Option.some.injEq]
  constructor
  · rintro ⟨_, entry, rfl, found, static⟩
    exact ⟨store, entry, rfl, by rw [← entries, found], static⟩
  · rintro ⟨_, entry, rfl, found, static⟩
    exact ⟨updated, entry, rfl, by rw [entries, found], static⟩

theorem servesStatic_congr (same : next.manager.certStore = server.manager.certStore) :
    next.ServesStatic host ↔ server.ServesStatic host := by
  simp only [ServesStatic, same]

/-- Orders stay apart from static certificates as long as reloads do. -/
theorem OrdersApart.advance
    (apart : server.OrdersApart)
    (allowed : server.ReloadsApart event)
    (advanced : server.advance ssl settings event = some next) :
    next.OrdersApart := by
  intro host target static
  cases effect_of_advance advanced allowed.1 with
  | idle same phase =>
      cases phase with
      | inl none =>
          rw [none] at target
          cases target
      | inr kept => exact apart host (kept ▸ target) ((servesStatic_congr same).mp static)
  | order present due nextPresent nextTarget =>
      obtain rfl := Option.some.inj (nextTarget.symm.trans target)
      obtain ⟨store, entry, found, served, source⟩ := static
      obtain rfl := Option.some.inj (nextPresent.symm.trans found)
      exact CertStore.source_ne_static_of_needsIssuance due served source
  | @reload _ _ request _ _ _ _ found asked present nextPresent phase =>
      rw [phase] at target
      have different := allowed.2 _ _ _ rfl found asked
      have elsewhere : host ≠ request.host := fun same => different (same ▸ target)
      exact apart host target ((servesStatic_of_entries present nextPresent
        (CertStore.insert_of_ne elsewhere)).mp static)
  | placeCrt present nextPresent phase =>
      rw [phase] at target
      exact apart host target ((servesStatic_of_entries present nextPresent rfl).mp static)
  | placeKey present nextPresent phase =>
      rw [phase] at target
      exact apart host target ((servesStatic_of_entries present nextPresent rfl).mp static)
  | writeCrt ordered present nextPresent nextTarget =>
      refine apart host ?_ ((servesStatic_of_entries present nextPresent rfl).mp static)
      rw [ordered, ← nextTarget, target]
  | writeKey ordered present nextPresent nextTarget =>
      refine apart host ?_ ((servesStatic_of_entries present nextPresent rfl).mp static)
      rw [ordered, ← nextTarget, target]
  | serve ordered present nextPresent nextTarget =>
      rw [nextTarget] at target
      cases target

/-- A static certificate is served after every step. -/
theorem ServesStatic.advance
    (static : server.ServesStatic host)
    (apart : server.OrdersApart)
    (stays : event ≠ .restart)
    (advanced : server.advance ssl settings event = some next) :
    next.ServesStatic host := by
  cases effect_of_advance advanced stays with
  | idle same _ => exact (servesStatic_congr same).mpr static
  | order present _ nextPresent _ =>
      exact (servesStatic_of_entries present nextPresent rfl).mpr static
  | @reload _ _ request _ _ cert key found asked present nextPresent _ =>
      by_cases same : host = request.host
      · subst same
        exact ⟨_, _, nextPresent, CertStore.insert_self, rfl⟩
      · exact (servesStatic_of_entries present nextPresent
          (CertStore.insert_of_ne same)).mpr static
  | placeCrt present nextPresent _ =>
      exact (servesStatic_of_entries present nextPresent rfl).mpr static
  | placeKey present nextPresent _ =>
      exact (servesStatic_of_entries present nextPresent rfl).mpr static
  | writeCrt _ present nextPresent _ =>
      exact (servesStatic_of_entries present nextPresent rfl).mpr static
  | writeKey _ present nextPresent _ =>
      exact (servesStatic_of_entries present nextPresent rfl).mpr static
  | @serve ordered _ _ _ _ _ target present nextPresent _ =>
      have elsewhere : host ≠ ordered := fun same => apart host (same ▸ target) static
      exact (servesStatic_of_entries present nextPresent
        (CertStore.insert_of_ne elsewhere)).mpr static

/-- The files of a host with a static certificate change only when one of them is placed. -/
theorem ServesStatic.files_advance
    (static : server.ServesStatic host)
    (apart : server.OrdersApart)
    (stays : event ≠ .restart)
    (crtKept : ∀ pem, event ≠ .placeCrt host pem)
    (keyKept : ∀ pem, event ≠ .placeKey host pem)
    (advanced : server.advance ssl settings event = some next) :
    next.files host = server.files host := by
  cases effect_of_advance advanced stays with
  | idle same _ => rw [files, files, same]
  | order present _ nextPresent _ => rw [files, files, present, nextPresent]
  | reload _ _ present nextPresent _ =>
      rw [files, files, present, nextPresent]
      rfl
  | @placeCrt placed pem _ _ present nextPresent _ =>
      have elsewhere : host ≠ placed := fun same => crtKept pem (by rw [same])
      rw [files, files, present, nextPresent]
      simp [CertStore.writeCrt, elsewhere]
  | @placeKey placed pem _ _ present nextPresent _ =>
      have elsewhere : host ≠ placed := fun same => keyKept pem (by rw [same])
      rw [files, files, present, nextPresent]
      simp [CertStore.writeKey, elsewhere]
  | @writeCrt ordered _ _ _ _ target present nextPresent _ =>
      have elsewhere : host ≠ ordered := fun same => apart host (same ▸ target) static
      rw [files, files, present, nextPresent]
      simp [CertStore.writeCrt, elsewhere]
  | @writeKey ordered _ _ _ _ target present nextPresent _ =>
      have elsewhere : host ≠ ordered := fun same => apart host (same ▸ target) static
      rw [files, files, present, nextPresent]
      simp [CertStore.writeKey, elsewhere]
  | serve _ present nextPresent _ =>
      rw [files, files, present, nextPresent]
      rfl

end ProxyServer

/-- Once a host has a static certificate, it has one in every later state, and no step but the
placing of a file changes its files, provided that no request reloads the certificate of a
host while one is being ordered or stored for it. -/
theorem static_certificate_is_kept
    (ssl : OpenSsl)
    (settings : ProxySettings)
    {start server later : ProxyServer}
    (host : String)
    (idle : start.acme = .waiting)
    (reaches : (proxyMachine ssl settings).Reaches ProxyServer.ReloadsApart start server)
    (static : server.ServesStatic host)
    (goesOn : (proxyMachine ssl settings).Reaches ProxyServer.ReloadsApart server later) :
    later.ServesStatic host ∧
      ∀ event next, later.ReloadsApart event →
        (∀ pem, event ≠ .placeCrt host pem) → (∀ pem, event ≠ .placeKey host pem) →
        later.advance ssl settings event = some next → next.files host = later.files host := by
  have initially : start.OrdersApart := by
    intro target ordered
    rw [idle] at ordered
    cases ordered
  have apart : server.OrdersApart := reaches.invariant initially
    fun _ _ _ before allowed advanced => before.advance allowed advanced
  have kept : later.OrdersApart ∧ later.ServesStatic host := by
    induction goesOn with
    | start => exact ⟨apart, static⟩
    | step event _ allowed advanced inductionHypothesis =>
        exact ⟨inductionHypothesis.1.advance allowed advanced,
          inductionHypothesis.2.advance inductionHypothesis.1 allowed.1 advanced⟩
  refine ⟨kept.2, ?_⟩
  intro event next allowed crtKept keyKept advanced
  exact kept.2.files_advance kept.1 allowed.1 crtKept keyKept advanced

/-- Where the certificate of a host came from. -/
def ProxyServer.source (server : ProxyServer) (host : String) : Option CertSource :=
  (server.manager.certStore.bind fun store => store.entries host).map CertEntry.source

theorem ProxyServer.servesStatic_of_source (found : server.source host = some .static) :
    server.ServesStatic host := by
  obtain ⟨entry, served, source⟩ := Option.map_eq_some_iff.mp found
  obtain ⟨store, present, served⟩ := Option.bind_eq_some_iff.mp served
  exact ⟨store, entry, present, served, source⟩

/-- What a proxy has for a host: where its certificate came from, and its files. -/
structure HostCertificate where
  source : Option CertSource
  crt : Option String
  key : Option String
  deriving DecidableEq

def ProxyServer.certificate (server : ProxyServer) (host : String) : HostCertificate where
  source := server.source host
  crt := server.manager.certStore.bind fun store => store.dir.crt host
  key := server.manager.certStore.bind fun store => store.dir.key host

/-- A proxy with a host that asks for a certificate and has none. -/
def secureProxy : ProxyServer where
  manager := RouteManager.apply ⟨∅, ∅, some ⟨⟨fun _ => none, fun _ => none⟩, fun _ => none⟩⟩
    (sampleApply true false) true
  calls := []
  acme := .waiting
  now := 0

/-- A deployment that brings its own certificate. -/
def sampleReload : AdminRequest :=
  .routeApply { sampleApply true false with reloadCertificate := true }

/-- An operator's certificate is placed and reloaded. -/
def staticArrives : List ProxyEvent :=
  [.placeCrt "shop.example" "operator", .placeKey "shop.example" "operator",
    .arrive sampleReload, .proceed 0 (.ok ())]

/-- The condition on a reload, decided. -/
def ProxyServer.reloadsApart (server : ProxyServer) : ProxyEvent → Bool
  | .restart => false
  | .proceed position _ =>
      match server.calls[position]? with
      | some ⟨.routeApply request, .arrived⟩ =>
          !request.reloadCertificate || server.acme.target ≠ some request.host
      | _ => true
  | _ => true

theorem ProxyServer.reloadsApart_of_reloadsApart
    (server : ProxyServer)
    (event : ProxyEvent)
    (passed : server.reloadsApart event = true) :
    server.ReloadsApart event := by
  refine ⟨?_, ?_⟩
  · rintro rfl
    cases passed
  · rintro position discovery request rfl found asked
    simpa [reloadsApart, found, asked] using passed

theorem static_certificate_is_kept_visited :
    ∃ server later,
      (proxyMachine sampleSsl sampleSettings).Reaches ProxyServer.ReloadsApart
        secureProxy server ∧
      (proxyMachine sampleSsl sampleSettings).Reaches ProxyServer.ReloadsApart server later ∧
      later.acme = .waiting ∧ later.ServesStatic "shop.example" := by
  have ran : ((((proxyMachine sampleSsl sampleSettings).checked
      ProxyServer.reloadsApart).run secureProxy staticArrives).bind fun server =>
      (((proxyMachine sampleSsl sampleSettings).checked ProxyServer.reloadsApart).run server
        [.check ["shop.example"], .visit, .visit]).map fun later =>
          (server.source "shop.example", later.acme)) = some (some .static, .waiting) := by
    decide +kernel
  obtain ⟨server, before, rest⟩ := Option.bind_eq_some_iff.mp ran
  obtain ⟨later, after, summary⟩ := Option.map_eq_some_iff.mp rest
  obtain ⟨source, phase⟩ := Prod.mk.inj summary
  have reaches := Machine.reaches_of_checked before ProxyServer.reloadsApart_of_reloadsApart
  have goesOn := Machine.reaches_of_checked after ProxyServer.reloadsApart_of_reloadsApart
  exact ⟨server, later, reaches, goesOn, phase,
    (static_certificate_is_kept sampleSsl sampleSettings "shop.example" rfl reaches
      (ProxyServer.servesStatic_of_source source) goesOn).1⟩

/-- An order that was begun before a static certificate is reloaded replaces its files and the
certificate that is served. -/
theorem pending_order_replaces_static_certificate :
    ((proxyMachine sampleSsl sampleSettings).run secureProxy
      ([.check ["shop.example"], .visit] ++ staticArrives)).bind (fun server =>
      ((proxyMachine sampleSsl sampleSettings).run server
        [.conclude (.ok ("ordered", "ordered")), .store true, .store true, .store true]).map
        fun later => (server.certificate "shop.example", later.certificate "shop.example")) =
      some (⟨some .static, some "operator", some "operator"⟩,
        ⟨some .acme, some "ordered", some "ordered"⟩) := by
  decide +kernel

end Static

section Renewal

variable {ssl : OpenSsl} {settings : ProxySettings} {server next : ProxyServer}
variable {event : ProxyEvent} {host : String} {cert : X509} {key : PKey}

namespace ProxyServer

/-- A host is served a certificate that was ordered for it. -/
def ServesOrdered (server : ProxyServer) (host : String) (cert : X509) (key : PKey) : Prop :=
  ∃ store, server.manager.certStore = some store ∧
    store.entries host = some ⟨cert, key, .acme⟩

/-- The proxy keeps running, the certificate of a host is not reloaded, and no other
certificate is stored for it. -/
def Undisturbed (host : String) (server : ProxyServer) (event : ProxyEvent) : Prop :=
  event ≠ .restart ∧
    (∀ position discovery request, event = .proceed position discovery →
      server.calls[position]? = some ⟨.routeApply request, .arrived⟩ →
      request.reloadCertificate = true → request.host ≠ host) ∧
    ∀ written, event = .store written → server.acme.target ≠ some host

theorem ServesOrdered.of_entries
    (ordered : server.ServesOrdered host cert key)
    (present : server.manager.certStore = some store)
    (nextPresent : next.manager.certStore = some updated)
    (entries : updated.entries host = store.entries host) :
    next.ServesOrdered host cert key := by
  obtain ⟨known, found, served⟩ := ordered
  obtain rfl := Option.some.inj (present.symm.trans found)
  exact ⟨updated, nextPresent, by rw [entries, served]⟩

theorem ServesOrdered.advance
    (ordered : server.ServesOrdered host cert key)
    (allowed : server.Undisturbed host event)
    (advanced : server.advance ssl settings event = some next) :
    next.ServesOrdered host cert key := by
  obtain ⟨stays, unreloaded, unstored⟩ := allowed
  cases effect_of_advance advanced stays with
  | idle same _ =>
      obtain ⟨store, found, served⟩ := ordered
      exact ⟨store, same.trans found, served⟩
  | order present _ nextPresent _ => exact ordered.of_entries present nextPresent rfl
  | reload found asked present nextPresent _ =>
      have elsewhere := unreloaded _ _ _ rfl found asked
      exact ordered.of_entries present nextPresent (CertStore.insert_of_ne elsewhere.symm)
  | placeCrt present nextPresent _ => exact ordered.of_entries present nextPresent rfl
  | placeKey present nextPresent _ => exact ordered.of_entries present nextPresent rfl
  | writeCrt _ present nextPresent _ => exact ordered.of_entries present nextPresent rfl
  | writeKey _ present nextPresent _ => exact ordered.of_entries present nextPresent rfl
  | @serve stored _ _ _ _ _ target present nextPresent _ =>
      have elsewhere : host ≠ stored := fun same => unstored _ rfl (same ▸ target)
      exact ordered.of_entries present nextPresent (CertStore.insert_of_ne elsewhere)

theorem ServesOrdered.reaches
    (ordered : server.ServesOrdered host cert key)
    (goesOn : (proxyMachine ssl settings).Reaches (Undisturbed host) server later) :
    later.ServesOrdered host cert key := by
  induction goesOn with
  | start => exact ordered
  | step event _ allowed advanced inductionHypothesis =>
      exact inductionHypothesis.advance allowed advanced

end ProxyServer

/-- A certificate that was ordered is due again in every later state in which it ends within the
time before renewal, if that is a number of whole days, the proxy was not started again and the
certificate of the host was not reloaded. -/
theorem ordered_certificate_is_due_again
    (ssl : OpenSsl)
    (settings : ProxySettings)
    {server stored later : ProxyServer}
    {host certPem keyPem : String}
    {rest : List String}
    {cert : X509}
    {key : PKey}
    {written : Bool}
    (renewBefore : ℕ)
    (storing : server.acme = .storing host rest certPem keyPem cert key .keyWritten)
    (stores : server.advance ssl settings (.store written) = some stored)
    (goesOn : (proxyMachine ssl settings).Reaches (ProxyServer.Undisturbed host) stored later)
    (whole : 86400 ∣ renewBefore)
    (bounded : renewBefore / 86400 < 2 ^ 32)
    (ends : cert.notAfter < later.now + renewBefore) :
    ∃ store, later.manager.certStore = some store ∧
      store.needsIssuance ssl later.now host renewBefore = true := by
  have initially : stored.ServesOrdered host cert key := by
    obtain ⟨store, _, stepped⟩ := Option.bind_eq_some_iff.mp stores
    simp only [ProxyServer.acmeStep, storing, Option.some.injEq] at stepped
    rw [← stepped]
    exact ⟨_, rfl, CertStore.insert_self⟩
  obtain ⟨store, present, served⟩ := initially.reaches goesOn
  have enough := CertStore.le_renewalDays whole bounded
  refine ⟨store, present, CertStore.needsIssuance_of_acme served rfl ?_⟩
  exact ends.trans_le (Nat.add_le_add_left enough later.now)

/-- When the certificate of a host ends, and whether it is due. -/
def ProxyServer.standing (server : ProxyServer) (ssl : OpenSsl) (host : String)
    (renewBefore : ℕ) : Option (Option ℕ × Bool) :=
  server.manager.certStore.map fun store =>
    ((store.get host).map fun entry => entry.cert.notAfter,
      store.needsIssuance ssl server.now host renewBefore)

/-- The events of an order for the host of the sample. -/
def sampleOrder : List ProxyEvent :=
  [.check ["shop.example"], .visit, .conclude (.ok ("ordered", "ordered")), .store true,
    .store true]

theorem ordered_certificate_is_due_again_after_eighty_days :
    ∃ (later : ProxyServer) (store : CertStore),
      later.manager.certStore = some store ∧ later.now = 6912000 ∧
      store.needsIssuance sampleSsl later.now "shop.example" 2592000 = true := by
  have ran : (((proxyMachine sampleSsl sampleSettings).run secureProxy sampleOrder).bind
      fun server => (server.advance sampleSsl sampleSettings (.store true)).bind fun stored =>
        (stored.advance sampleSsl sampleSettings (.wait 6912000)).map fun later =>
          (server.acme, later.now)) =
      some (.storing "shop.example" [] "ordered" "ordered" ⟨.ok "key", 7776000⟩ ⟨"key"⟩
        .keyWritten, 6912000) := by
    decide +kernel
  obtain ⟨server, _, rest⟩ := Option.bind_eq_some_iff.mp ran
  obtain ⟨stored, stores, rest⟩ := Option.bind_eq_some_iff.mp rest
  obtain ⟨later, waits, summary⟩ := Option.map_eq_some_iff.mp rest
  obtain ⟨storing, time⟩ := Prod.mk.inj summary
  have goesOn : (proxyMachine sampleSsl sampleSettings).Reaches
      (ProxyServer.Undisturbed "shop.example") stored later := by
    exact Machine.Reaches.step (.wait 6912000) .start ⟨by simp, by simp, by simp⟩ waits
  obtain ⟨store, present, due⟩ := ordered_certificate_is_due_again sampleSsl sampleSettings
    2592000 storing stores goesOn (by decide) (by decide) (by rw [time]; decide)
  exact ⟨later, store, present, time, due⟩

/-- A proxy that is started again takes a certificate that it ordered for a static one and does
not order it again, ten days before it ends. -/
theorem restarted_proxy_stops_renewing :
    ((proxyMachine sampleSsl ⟨[sampleApply true false], [], 2592000⟩).run secureProxy
      (sampleOrder ++ [.store true, .visit, .restart, .wait 6912000])).map (fun later =>
        (later.manager.tlsHosts, later.now,
          later.standing sampleSsl "shop.example" 2592000)) =
      some (["shop.example"], 6912000, some (some 7776000, false)) := by
  decide +kernel

end Renewal

end Proxy
end Jiji
