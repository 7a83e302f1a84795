import Mathlib.Data.List.Induction
import GaugeDesk.Lib.OrderedMap
import GaugeDesk.Signing.Signature

/-!
# Account: project routes against a directory record

`library_sync_reconcile_routes` of `directory_sync.rs`: what a verified record
states is merged, and what it is authority for and does not state is retracted.
Routes are keyed by project.  A stated route to another Home is written under its
project whatever is held there, so it replaces a route that names this Home:

    ownership is respected ↔ no such route is stated  (respects_iff)
    a record fetched again changes no route  (reconcile_idempotent)
-/

namespace GaugeDesk.Account

open Std Signing List TreeMap

inductive RecordOp where
  | upsert | tombstone
deriving DecidableEq, Repr

/-- `fn fold`: a record into the map of its kind. -/
def fold {T : Type} (map : TreeMap String T) (id : String) (op : RecordOp) (record : T) :
    TreeMap String T :=
  match op with
  | .tombstone => map.erase id
  | .upsert => map.insert id record

structure OpaqueRelayLocator where
  (endpoint handle proof : String)
  routeEpoch : Nat
  homeFingerprint : String
deriving DecidableEq, Repr

structure SignedPlacement where
  (projectKey hostKey : String)
  (placementSignature locatorSignature : Signature)
deriving DecidableEq, Repr

structure OpaqueHomeRoute where
  project : String
  homeId : String
  endpoint : String := ""
  relay : Option OpaqueRelayLocator := none
  authorAuthority : String := ""
  authorRootPubkey : String := ""
  authorSignature : Option Signature := none
  placement : Option SignedPlacement := none
deriving DecidableEq, Repr

structure DirectoryRecord where
  rootPubkey : String
  devicePubkeys : List String := []
  placementPointers : List String := []
  homeRoutes : List OpaqueHomeRoute := []
deriving DecidableEq, Repr

structure DirectoryEntry where
  generation : Nat
  directory : DirectoryRecord
  sealedBlob : String := ""
  retracted : Bool := false
  device : String := ""
deriving DecidableEq, Repr

structure FetchedRecord where
  entry : DirectoryEntry
  signature : Option Signature
deriving DecidableEq, Repr

structure HomeRouteRecord where
  id : String
  op : RecordOp := .upsert
  homeId : String
  endpoint : String := ""
  relay : Option OpaqueRelayLocator := none
  authorAuthority : String := ""
  authorRootPubkey : String := ""
  authorSignature : Option Signature := none
deriving DecidableEq, Repr

/-- `impl From<HomeRouteRecord> for OpaqueHomeRoute`. -/
def HomeRouteRecord.toRoute (record : HomeRouteRecord) : OpaqueHomeRoute where
  project := record.id
  homeId := record.homeId
  endpoint := record.endpoint
  relay := record.relay
  authorAuthority := record.authorAuthority
  authorRootPubkey := record.authorRootPubkey
  authorSignature := record.authorSignature

/-- The account's routes, live and retracted. -/
structure HomeRoutes where
  homeRoutes : TreeMap String HomeRouteRecord := {}
  departedHomeRoutes : TreeMap String HomeRouteRecord := {}

/-- `Account::fold_records`, for one row of kind `home_route`. -/
def HomeRoutes.add (account : HomeRoutes) (r : HomeRouteRecord) : HomeRoutes where
  homeRoutes := fold account.homeRoutes r.id r.op r
  departedHomeRoutes :=
    match r.op with
    | .tombstone => account.departedHomeRoutes.insert r.id r
    | .upsert => account.departedHomeRoutes.erase r.id

/-- `Account::rebuild`, of the rows of kind `home_route`. -/
def rebuild (rows : List HomeRouteRecord) : HomeRoutes := rows.foldl HomeRoutes.add {}

/-- What the crates answer: the signature check, the signed bytes as `serde_json` writes them, and
whether the store appends a record and folds its rows. -/
structure Services where
  verification : Verification
  signingBytes : DirectoryEntry → Option (List UInt8)
  homeRouteSigningBytes : String → OpaqueHomeRoute → Option (List UInt8)
  appends : HomeRouteRecord → Bool
  rebuilds : Bool

/-- This device: its rows, its account root and its Home. -/
structure Workbench where
  rows : List HomeRouteRecord
  librarySyncRoot : String
  homeId : String

/-! ## Trust -/

inductive RouteTrust where
  | signed
  | degraded (reason : String)
  | rootMismatch
deriving DecidableEq, Repr

def RouteTrust.declined : RouteTrust → Option String
  | .signed => none
  | .degraded reason => some reason
  | .rootMismatch =>
    some "the directory record is signed by a different account root than this device"

/-- `verify_signature(..).unwrap_or(false)` on bytes that were written. -/
def Services.verifies (sv : Services) (bytes : Option (List UInt8)) (signature : Signature)
    (pubkey : String) : Bool :=
  bytes.any fun bytes => decide (sv.verification bytes signature pubkey = .ok true)

def putVerifies (sv : Services) (entry : DirectoryEntry) (signature : Signature) : Bool :=
  sv.verifies (sv.signingBytes entry) signature entry.directory.rootPubkey

def routeTrust (sv : Services) (record : FetchedRecord) (rootPubkey : String) : RouteTrust :=
  if rootPubkey = "" then .degraded "this device holds no account root to check the record against"
  else
    match record.signature with
    | none => .degraded "the directory served a record with no root signature"
    | some signature =>
      if !putVerifies sv record.entry signature then
        .degraded "the directory record failed root-signature verification"
      else if record.entry.directory.rootPubkey ≠ rootPubkey then .rootMismatch
      else .signed

def sharedHomeRouteVerifies (sv : Services) (route : OpaqueHomeRoute) : Bool :=
  match route.authorSignature with
  | none => false
  | some signature =>
    if route.authorAuthority = "" ∨ route.authorRootPubkey = "" then false
    else
      sv.verifies (sv.homeRouteSigningBytes route.authorAuthority route) signature
        route.authorRootPubkey

def claimsAnAuthor (route : OpaqueHomeRoute) : Bool :=
  route.authorAuthority != "" || route.authorRootPubkey != "" || route.authorSignature.isSome

def authorshipHolds (sv : Services) (route : OpaqueHomeRoute) : Bool :=
  !claimsAnAuthor route || sharedHomeRouteVerifies sv route

def isRetractionShape (route : OpaqueHomeRoute) : Bool :=
  route.endpoint == "" && route.relay.isNone

def directoryOwns (held : HomeRouteRecord) (thisHome : String) : Bool :=
  held.homeId != thisHome && !claimsAnAuthor held.toRoute

/-! ## Reconciliation -/

structure RouteReconcile where
  written : Nat := 0
  retracted : Nat := 0
  declined : Option String := none
deriving DecidableEq, Repr

/-- The loops of the reconciliation: rows, stated projects and counts so far. -/
structure Progress where
  rows : List HomeRouteRecord
  stated : List String := []
  reconcile : RouteReconcile := {}

/-- The record a stated route is merged as. -/
def mergedRecord (route : OpaqueHomeRoute) : HomeRouteRecord where
  id := route.project
  op := if isRetractionShape route then .tombstone else .upsert
  homeId := route.homeId
  endpoint := route.endpoint
  relay := route.relay
  authorAuthority := route.authorAuthority
  authorRootPubkey := route.authorRootPubkey
  authorSignature := route.authorSignature

/-- `write_account_record_in`, and the counts where it succeeds. -/
def Progress.write (sv : Services) (p : Progress) (record : HomeRouteRecord) : Progress :=
  if sv.appends record then
    { p with
      rows := p.rows ++ [record]
      reconcile := { p.reconcile with
        written := p.reconcile.written + 1
        retracted := p.reconcile.retracted + if record.op = .tombstone then 1 else 0 } }
  else p

def Progress.merge (sv : Services) (thisHome : String) (p : Progress) (route : OpaqueHomeRoute) :
    Progress :=
  if !authorshipHolds sv route then p
  else
    let p := { p with stated := route.project :: p.stated }
    if route.homeId = thisHome then p else p.write sv (mergedRecord route)

def Progress.departed (sv : Services) (thisHome : String) (p : Progress) : List HomeRouteRecord :=
  if sv.rebuilds then
    ((rebuild p.rows).homeRoutes.toList.map Prod.snd).filter fun held =>
      directoryOwns held thisHome && !p.stated.contains held.id
  else []

def Progress.retract (sv : Services) (p : Progress) (held : HomeRouteRecord) : Progress :=
  p.write sv { held with op := .tombstone }

/-- The first loop, over the routes of the record. -/
def mergeRoutes (sv : Services) (w : Workbench) (record : FetchedRecord) : Progress :=
  record.entry.directory.homeRoutes.foldl (Progress.merge sv w.homeId) { rows := w.rows }

def librarySyncReconcileRoutes (sv : Services) (w : Workbench) (record : FetchedRecord) :
    Workbench × RouteReconcile :=
  let trust := routeTrust sv record w.librarySyncRoot
  if trust ≠ .signed then (w, { declined := trust.declined })
  else
    let merged := mergeRoutes sv w record
    let done := (merged.departed sv w.homeId).foldl (Progress.retract sv) merged
    ({ w with rows := done.rows }, done.reconcile)

/-! ## Routes after a write -/

variable {sv : Services} {w : Workbench} {p : Progress} {r held : HomeRouteRecord}
  {route : OpaqueHomeRoute} {rows : List HomeRouteRecord} {record : FetchedRecord}
  {project home : String}

/-- The live route of a project. -/
def routeOf (rows : List HomeRouteRecord) (project : String) : Option HomeRouteRecord :=
  (rebuild rows).homeRoutes[project]?

/-- What a record leaves under its id. -/
def HomeRouteRecord.live (r : HomeRouteRecord) : Option HomeRouteRecord :=
  match r.op with
  | .upsert => some r
  | .tombstone => none

theorem live_eq_some (h : r.live = some held) : r = held ∧ r.op = .upsert := by
  unfold HomeRouteRecord.live at h
  cases hop : r.op with
  | upsert =>
    rw [hop] at h
    exact ⟨Option.some.inj h, rfl⟩
  | tombstone =>
    rw [hop] at h
    cases h

theorem routeOf_append (rows : List HomeRouteRecord) (r : HomeRouteRecord) (project : String) :
    routeOf (rows ++ [r]) project = if r.id = project then r.live else routeOf rows project := by
  unfold routeOf rebuild
  rw [foldl_append, foldl_cons, foldl_nil, HomeRoutes.add]
  cases hop : r.op with
  | upsert => simp only [fold, HomeRouteRecord.live, hop, getElem?_insert_eq]
  | tombstone =>
    simp only [fold, HomeRouteRecord.live, hop, getElem?_erase, LawfulEqCmp.compare_eq_iff_eq]

theorem id_of_routeOf (h : routeOf rows project = some r) : r.id = project ∧ r.op = .upsert := by
  induction rows using reverseRecOn with
  | nil => simp [routeOf, rebuild] at h
  | append_singleton rows last ih =>
    rw [routeOf_append] at h
    by_cases hid : last.id = project
    · rw [if_pos hid] at h
      obtain ⟨rfl, hop⟩ := live_eq_some h
      exact ⟨hid, hop⟩
    · rw [if_neg hid] at h
      exact ih h

/-! ## The two loops -/

/-- The store appends what it is given and folds its rows. -/
structure Services.Succeeds (sv : Services) : Prop where
  appends : ∀ r, sv.appends r = true
  rebuilds : sv.rebuilds = true

/-- The record validly states a route of the project, to a Home of the kind. -/
def States (sv : Services) (routes : List OpaqueHomeRoute) (project : String)
    (kind : String → Prop) : Prop :=
  ∃ route ∈ routes, authorshipHolds sv route = true ∧ route.project = project ∧ kind route.homeId

theorem states_cons {routes : List OpaqueHomeRoute} {kind : String → Prop} :
    States sv (route :: routes) project kind ↔
      (authorshipHolds sv route = true ∧ route.project = project ∧ kind route.homeId) ∨
        States sv routes project kind := by
  simp [States]

theorem routeOf_write (hsv : sv.Succeeds) : routeOf (p.write sv r).rows project =
    if r.id = project then r.live else routeOf p.rows project := by
  rw [Progress.write, if_pos (hsv.appends r), routeOf_append]

theorem stated_write : (p.write sv r).stated = p.stated := by
  unfold Progress.write
  split <;> rfl

theorem stated_merge : (p.merge sv home route).stated =
    if authorshipHolds sv route = true then route.project :: p.stated else p.stated := by
  unfold Progress.merge
  cases authorshipHolds sv route with
  | false => rfl
  | true =>
    by_cases hhome : route.homeId = home
    · simp [hhome]
    · simp [hhome, stated_write]

theorem routeOf_merge (hsv : sv.Succeeds) : routeOf (p.merge sv home route).rows project =
    if authorshipHolds sv route = true ∧ route.project = project ∧ route.homeId ≠ home then
      (mergedRecord route).live else routeOf p.rows project := by
  unfold Progress.merge
  cases authorshipHolds sv route with
  | false => simp
  | true =>
    by_cases hhome : route.homeId = home
    · simp [hhome]
    · simp only [Bool.not_true, Bool.false_eq_true, if_false, if_neg hhome, routeOf_write hsv]
      simp only [true_and, ne_eq, hhome, not_false_eq_true, and_true]
      rfl

/-- After the merge a project that was stated for another Home holds no route to this one, and
every other project what it held before. -/
theorem merge_loop (hsv : sv.Succeeds) (home project : String) (routes : List OpaqueHomeRoute)
    (p : Progress) :
    let q := routes.foldl (Progress.merge sv home) p
    (project ∈ q.stated ↔ project ∈ p.stated ∨ States sv routes project fun _ => True) ∧
    (States sv routes project (· ≠ home) → ∀ r, routeOf q.rows project = some r → r.homeId ≠ home) ∧
    (¬ States sv routes project (· ≠ home) → routeOf q.rows project = routeOf p.rows project) := by
  induction routes generalizing p with
  | nil => simp [States]
  | cons route routes ih =>
    obtain ⟨hstated, hwritten, hkept⟩ := ih (p.merge sv home route)
    rw [stated_merge] at hstated
    rw [routeOf_merge hsv] at hkept
    refine ⟨?_, ?_, ?_⟩
    · rw [foldl_cons, hstated, states_cons]
      by_cases hvalid : authorshipHolds sv route = true <;> simp [hvalid, or_assoc, eq_comm]
      tauto
    · intro hs r hr
      by_cases hlater : States sv routes project (· ≠ home)
      · exact hwritten hlater r hr
      · -- this route is the last word on the project
        have hone := (states_cons.mp hs).resolve_right hlater
        have hlive : (mergedRecord route).live = some r := by
          rw [← hr, foldl_cons, hkept hlater, if_pos hone]
        rw [← (live_eq_some hlive).1]
        exact hone.2.2
    · intro hs
      rw [states_cons, not_or] at hs
      rw [foldl_cons, hkept hs.2, if_neg hs.1]

theorem retract_loop (hsv : sv.Succeeds) (departed : List HomeRouteRecord) (p : Progress) :
    routeOf (departed.foldl (Progress.retract sv) p).rows project =
      if ∃ held ∈ departed, held.id = project then none else routeOf p.rows project := by
  induction departed generalizing p with
  | nil => simp
  | cons held departed ih =>
    rw [foldl_cons, ih, Progress.retract, routeOf_write hsv]
    by_cases hlater : ∃ held ∈ departed, held.id = project
    · rw [if_pos hlater, if_pos]
      obtain ⟨held', hmem, hid⟩ := hlater
      exact ⟨held', mem_cons_of_mem _ hmem, hid⟩
    · rw [if_neg hlater]
      by_cases hid : held.id = project
      · rw [if_pos hid, if_pos ⟨held, mem_cons_self, hid⟩]
        rfl
      · rw [if_neg hid, if_neg]
        rintro ⟨held', hmem, hid'⟩
        rcases mem_cons.mp hmem with rfl | hmem
        · exact hid hid'
        · exact hlater ⟨held', hmem, hid'⟩

theorem mem_departed (hsv : sv.Succeeds) : held ∈ p.departed sv home ↔
    routeOf p.rows held.id = some held ∧ directoryOwns held home = true ∧ held.id ∉ p.stated := by
  have hvalues : held ∈ (rebuild p.rows).homeRoutes.toList.map Prod.snd ↔
      routeOf p.rows held.id = some held := by
    rw [mem_map]
    constructor
    · rintro ⟨⟨key, value⟩, hmem, rfl⟩
      have hget : routeOf p.rows key = some value := mem_toList_iff_getElem?_eq_some.mp hmem
      rw [(id_of_routeOf hget).1]
      exact hget
    · intro hget
      exact ⟨(held.id, held), mem_toList_iff_getElem?_eq_some.mpr hget, rfl⟩
  rw [Progress.departed, if_pos hsv.rebuilds, mem_filter, hvalues]
  simp

/-! ## Ownership -/

theorem signed_of_routeTrust {root : String} (h : routeTrust sv record root = .signed) :
    ∃ signature, record.signature = some signature ∧
      sv.verifies (sv.signingBytes record.entry) signature root = true := by
  rw [routeTrust] at h
  cases hsignature : record.signature with
  | none =>
    rw [hsignature] at h
    split_ifs at h
  | some signature =>
    simp only [hsignature] at h
    split_ifs at h with hempty hfails hroot
    rw [Bool.not_eq_true', Bool.not_eq_false, putVerifies, not_not.mp hroot] at hfails
    exact ⟨signature, rfl, hfails⟩

/-- What a reconciliation leaves alone, and what it settles. -/
structure Respects (sv : Services) (w : Workbench) (record : FetchedRecord)
    (after : List HomeRouteRecord) : Prop where
  verified : (∃ project, routeOf after project ≠ routeOf w.rows project) →
    ∃ signature, record.signature = some signature ∧
      sv.verifies (sv.signingBytes record.entry) signature w.librarySyncRoot = true
  ownKept : ∀ project r, routeOf w.rows project = some r → r.homeId = w.homeId →
    routeOf after project = some r
  ownNew : ∀ project r, routeOf after project = some r → r.homeId = w.homeId →
    routeOf w.rows project = some r
  authored : ∀ project r, routeOf w.rows project = some r → claimsAnAuthor r.toRoute = true →
    ¬ States sv record.entry.directory.homeRoutes project (fun _ => True) →
    routeOf after project = some r
  stated : routeTrust sv record w.librarySyncRoot = .signed →
    ∀ project r, routeOf after project = some r → r.homeId ≠ w.homeId →
      claimsAnAuthor r.toRoute = false →
      States sv record.entry.directory.homeRoutes project fun _ => True

/-- A stated route to another Home meets a held one that names this Home. -/
def Overrides (sv : Services) (w : Workbench) (record : FetchedRecord) : Prop :=
  routeTrust sv record w.librarySyncRoot = .signed ∧ ∃ project r,
    States sv record.entry.directory.homeRoutes project (· ≠ w.homeId) ∧
      routeOf w.rows project = some r ∧ r.homeId = w.homeId

theorem reconciled_iff (hsv : sv.Succeeds)
    (htrust : routeTrust sv record w.librarySyncRoot = .signed) :
    routeOf (librarySyncReconcileRoutes sv w record).1.rows project = some r ↔
      routeOf (mergeRoutes sv w record).rows project = some r ∧
        (directoryOwns r w.homeId = true →
          States sv record.entry.directory.homeRoutes project fun _ => True) := by
  have hrows : (librarySyncReconcileRoutes sv w record).1.rows =
      (((mergeRoutes sv w record).departed sv w.homeId).foldl (Progress.retract sv)
        (mergeRoutes sv w record)).rows := by
    rw [librarySyncReconcileRoutes, if_neg (not_not.mpr htrust)]
  have hstated : project ∈ (mergeRoutes sv w record).stated ↔
      States sv record.entry.directory.homeRoutes project fun _ => True := by
    rw [mergeRoutes, (merge_loop hsv _ _ _ _).1]
    simp
  rw [hrows, retract_loop hsv, ← hstated]
  by_cases hgone : ∃ held ∈ (mergeRoutes sv w record).departed sv w.homeId, held.id = project
  · rw [if_pos hgone]
    obtain ⟨held, hmem, rfl⟩ := hgone
    obtain ⟨hheld, howns, hnot⟩ := (mem_departed hsv).mp hmem
    simp only [reduceCtorEq, false_iff, not_and, hheld, Option.some.injEq]
    rintro rfl hall
    exact hnot (hall howns)
  · rw [if_neg hgone]
    refine ⟨fun hr => ⟨hr, fun howns => ?_⟩, And.left⟩
    have hid := (id_of_routeOf hr).1
    by_contra hnot
    subst hid
    exact hgone ⟨r, (mem_departed hsv).mpr ⟨hr, howns, hnot⟩, rfl⟩

/-- **Ownership is respected exactly when no valid statement of a verified record, for another Home,
is about a project whose held route names this Home.** -/
theorem respects_iff (sv : Services) (hsv : sv.Succeeds) (w : Workbench) (record : FetchedRecord) :
    Respects sv w record (librarySyncReconcileRoutes sv w record).1.rows ↔ ¬ Overrides sv w record := by
  have hloop := fun project => merge_loop hsv w.homeId project record.entry.directory.homeRoutes
    { rows := w.rows }
  constructor
  · rintro h ⟨htrust, project, r, hs, hr, hown⟩
    have hafter := ((reconciled_iff hsv htrust).mp (h.ownKept project r hr hown)).1
    exact (hloop project).2.1 hs r hafter hown
  · intro hover
    by_cases htrust : routeTrust sv record w.librarySyncRoot = .signed
    · refine ⟨fun _ => signed_of_routeTrust htrust, ?_, ?_, ?_, fun _ project r hr hhome hauthor => ?_⟩
      · intro project r hr hown
        have hno : ¬ States sv record.entry.directory.homeRoutes project (· ≠ w.homeId) :=
          fun hs => hover ⟨htrust, project, r, hs, hr, hown⟩
        refine (reconciled_iff hsv htrust).mpr ⟨((hloop project).2.2 hno).trans hr, ?_⟩
        simp [directoryOwns, hown]
      · intro project r hr hown
        have hmid := ((reconciled_iff hsv htrust).mp hr).1
        by_cases hs : States sv record.entry.directory.homeRoutes project (· ≠ w.homeId)
        · exact absurd hown ((hloop project).2.1 hs r hmid)
        · exact ((hloop project).2.2 hs).symm.trans hmid
      · intro project r hr hauthor hno
        have hno' : ¬ States sv record.entry.directory.homeRoutes project (· ≠ w.homeId) :=
          fun ⟨route, hmem, hvalid, hproject, _⟩ => hno ⟨route, hmem, hvalid, hproject, trivial⟩
        refine (reconciled_iff hsv htrust).mpr ⟨((hloop project).2.2 hno').trans hr, ?_⟩
        simp [directoryOwns, hauthor]
      · refine ((reconciled_iff hsv htrust).mp hr).2 ?_
        simp [directoryOwns, hhome, hauthor]
    · -- a record that is not trusted leaves every row as it is
      rw [librarySyncReconcileRoutes, if_pos htrust]
      exact ⟨fun ⟨_, hne⟩ => absurd rfl hne, fun _ _ hr _ => hr, fun _ _ hr _ => hr,
        fun _ _ hr _ _ => hr, fun h => absurd h htrust⟩

/-! ## A Home whose route is stated elsewhere -/

def sampleServices : Services where
  verification _ _ _ := .ok true
  signingBytes _ := some []
  homeRouteSigningBytes _ _ := some []
  appends _ := true
  rebuilds := true

/-- The Home `desk` serves the project `p`. -/
def deskWorkbench : Workbench :=
  ⟨[{ id := "p", homeId := "desk", endpoint := "https://desk" }], "root", "desk"⟩

/-- A record of the account root that places `p` on a Home. -/
def placing (home : String) : FetchedRecord :=
  ⟨⟨1, { rootPubkey := "root", homeRoutes := [⟨"p", home, "https://" ++ home, none, "", "", none, none⟩] },
    "", false, ""⟩, some ⟨[]⟩⟩

/-- **The route that names this Home is replaced.** -/
theorem own_route_replaced :
    ((routeOf deskWorkbench.rows "p").map (·.homeId)) = some "desk" ∧
    ((routeOf (librarySyncReconcileRoutes sampleServices deskWorkbench (placing "cloud")).1.rows
      "p").map (·.homeId)) = some "cloud" := by
  decide +kernel

theorem respects_iff_desk : Respects sampleServices deskWorkbench (placing "desk")
    (librarySyncReconcileRoutes sampleServices deskWorkbench (placing "desk")).1.rows := by
  refine (respects_iff sampleServices ⟨fun _ => rfl, rfl⟩ _ _).mpr ?_
  rintro ⟨-, project, r, ⟨route, hroute, -, -, hhome⟩, -, -⟩
  cases mem_singleton.mp hroute
  exact hhome rfl

/-! ## Reconciling again -/

/-- What is stated for another Home is merged alike over any rows. -/
theorem merge_loop_last (hsv : sv.Succeeds) {routes : List OpaqueHomeRoute}
    (hs : States sv routes project (· ≠ home)) (p q : Progress) :
    routeOf (routes.foldl (Progress.merge sv home) p).rows project =
      routeOf (routes.foldl (Progress.merge sv home) q).rows project := by
  induction routes generalizing p q with
  | nil => simp [States] at hs
  | cons route routes ih =>
    by_cases hlater : States sv routes project (· ≠ home)
    · exact ih hlater _ _
    · have hone := (states_cons.mp hs).resolve_right hlater
      simp only [foldl_cons, (merge_loop hsv home project routes _).2.2 hlater, routeOf_merge hsv,
        if_pos hone]

/-- **Reconciling is idempotent**: a record that is fetched again changes no route, whatever it
states and retracts. -/
theorem reconcile_idempotent (hsv : sv.Succeeds) (w : Workbench) (record : FetchedRecord)
    (project : String) :
    let after := (librarySyncReconcileRoutes sv w record).1
    routeOf (librarySyncReconcileRoutes sv after record).1.rows project =
      routeOf after.rows project := by
  intro after
  by_cases htrust : routeTrust sv record w.librarySyncRoot = .signed
  · have hafter : after = { w with rows := after.rows } := by
      simp [after, librarySyncReconcileRoutes, htrust]
    have hfirst := fun r => @reconciled_iff sv w r record project hsv htrust
    refine Option.ext fun r => ?_
    rw [reconciled_iff hsv (hafter ▸ htrust)]
    by_cases hs : States sv record.entry.directory.homeRoutes project (· ≠ w.homeId)
    · -- the merge is that of the first time
      have hmerge : routeOf (mergeRoutes sv after record).rows project =
          routeOf (mergeRoutes sv w record).rows project := by
        rw [mergeRoutes, hafter]
        exact merge_loop_last hsv hs _ _
      rw [hmerge, hfirst, hafter]
    · -- the merge writes nothing, and what it would retract is gone
      have hkept : routeOf (mergeRoutes sv after record).rows project = routeOf after.rows project := by
        rw [mergeRoutes, hafter]
        exact (merge_loop hsv w.homeId project _ _).2.2 hs
      rw [hkept, hafter]
      exact ⟨And.left, fun h => ⟨h, ((hfirst r).mp h).2⟩⟩
  · have hsame : after = w := by simp only [after, librarySyncReconcileRoutes, if_pos htrust]
    rw [hsame]
    exact congrArg (routeOf ·.rows project) hsame

theorem reconcile_idempotent_desk :
    let after := (librarySyncReconcileRoutes sampleServices deskWorkbench (placing "cloud")).1
    routeOf (librarySyncReconcileRoutes sampleServices after (placing "cloud")).1.rows "p" =
      routeOf after.rows "p" :=
  reconcile_idempotent ⟨fun _ => rfl, rfl⟩ _ _ _

end GaugeDesk.Account
