import GaugeDesk.Audit.AuditHistory
import GaugeDesk.Lib.LengthPrefix

/-!
# Audit: what a rewritten store can still verify as

The links let a signed checkpoint speak for all entries before it, so a timeline
that verifies is one that was checkpointed.  The signed message names the number
of entries and the last hash, but not the scope: it may be another scope's.

    run labels = some w → (TamperEvident w s ↔ what was signed in any scope
      is a beginning of the timeline of s)  (tamper_evident_iff)
-/

namespace GaugeDesk.Audit

open Store Signing List

/-! ## What the hashed and the signed bytes determine -/

theorem measured_injective {v v' r r' : String} (h : measured v ++ r = measured v' ++ r') :
    v = v' ∧ r = r' := by
  have h := congrArg ("" ++ ·) h
  simp only [measured, ← String.append_assoc] at h
  exact lengthPrefix_injective h

/-- Four measured texts with bars between them. -/
theorem canon_injective {e e' : AuditEntry} (h : canon e = canon e') : e = e' := by
  obtain ⟨actor, action, target, prev⟩ := e
  obtain ⟨actor', action', target', prev'⟩ := e'
  simp only [canon, String.append_assoc] at h
  obtain ⟨rfl, hactor⟩ := measured_injective h
  obtain ⟨rfl, haction⟩ := measured_injective ((String.append_right_inj "|").mp hactor)
  obtain ⟨rfl, htarget⟩ := measured_injective ((String.append_right_inj "|").mp haction)
  have hlast := (String.append_right_inj "|").mp htarget
  obtain ⟨rfl, -⟩ := measured_injective (congrArg (· ++ "|") hlast)
  rfl

theorem checkpointMsg_injective {count count' : Nat} {head head' : String}
    (h : checkpointMsg count head = checkpointMsg count' head') : count = count' ∧ head = head' := by
  have htext := congrArg String.toList (utf8_injective h)
  have hcolon : (":" : String).toList = [':'] := rfl
  simp only [String.toList_append, append_assoc, hcolon, singleton_append] at htext
  have hfree : ∀ k : Nat, ':' ∉ (toString k).toList := Delimited.free_toString (by decide)
  obtain ⟨hcount, hhead⟩ := append_cons_injective (hfree _) (hfree _) htext
  exact ⟨Delimited.toString_injective (String.toList_inj.mp hcount), String.toList_inj.mp hhead⟩

namespace Notary

variable {n : Notary} {w : World} {db : Db} {s t : String} {cp : Checkpoint} {entries : List AuditEntry}

/-- SHA-256 tells the entries apart. -/
def CollisionFree (n : Notary) (p : AuditEntry → Prop) : Prop :=
  ∀ e e', p e → p e' → n.sha256 (utf8 (canon e)) = n.sha256 (utf8 (canon e')) →
    utf8 (canon e) = utf8 (canon e')

theorem CollisionFree.entryHash {p : AuditEntry → Prop} (h : n.CollisionFree p) {e e' : AuditEntry}
    (he : p e) (he' : p e') (hhash : n.entryHash e = n.entryHash e') : e = e' := by
  have hdigest := Vector.toList_inj.mp (Hex.hexEncode_injective hhash)
  exact canon_injective (utf8_injective (h e e' he he' hdigest))

/-! ## What verification checks -/

theorem walk_none_iff (l : List AuditEntry) {before : List AuditEntry} (hb : n.chain.Linked before)
    (i : Nat) : (n.walk i (n.chain.head before) l).1 = none ↔ n.chain.Linked (before ++ l) := by
  induction l generalizing before i with
  | nil =>
    rw [append_nil]
    exact ⟨fun _ => hb, fun _ => rfl⟩
  | cons e l ih =>
    rw [walk]
    by_cases he : e.prev = n.chain.head before
    · have hlinked : n.chain.Linked (before ++ [e]) := HashChain.linked_concat.mpr ⟨hb, he⟩
      have hnext := ih hlinked (i + 1)
      rw [HashChain.head_concat, append_assoc, singleton_append] at hnext
      rw [if_neg (not_not.mpr he)]
      exact hnext
    · rw [if_pos he]
      constructor
      · intro hnone
        cases hnone
      · intro hlinked
        exact absurd (hlinked before e l rfl) he

theorem anchors_iff {key : String} : n.anchors (some key) entries cp = true ↔
    verifySignature n.p256 (checkpointMsg cp.count cp.head) cp.sig key = .ok true ∧
      cp.count ≤ entries.length ∧ n.chain.head (entries.take cp.count) = cp.head := by
  simp [anchors]

theorem verifyIn_iff {key : String} : ((n.verifyIn db s (some key)).ok = true ∧
      (n.verifyIn db s (some key)).anchored = true) ↔
    n.chain.Linked (n.listIn db s) ∧ ∃ cp, n.latestCheckpointIn db s = some cp ∧
      n.anchors (some key) (n.listIn db s) cp = true := by
  have hwalk := walk_none_iff (n := n) (n.listIn db s) HashChain.linked_nil 0
  rw [nil_append] at hwalk
  have hhead : n.chain.head [] = GENESIS := rfl
  rw [hhead] at hwalk
  cases hcp : n.latestCheckpointIn db s with
  | none => simp [verifyIn, hcp]
  | some cp => simp [verifyIn, hcp, ← hwalk]

/-! ## Rewritten stores -/

/-- Nobody but the governance key signs for it. -/
def Unforged (n : Notary) (w : World) (db : Db) : Prop :=
  ∀ t, ∀ cp ∈ n.checkpointsIn db t,
    verifySignature n.p256 (checkpointMsg cp.count cp.head) cp.sig n.publicKey = .ok true →
    ∃ signed ∈ w.signed, checkpointMsg signed.2.count signed.2.head = checkpointMsg cp.count cp.head

/-- The entry was honestly appended, in some scope. -/
def Appended (n : Notary) (w : World) (e : AuditEntry) : Prop := ∃ t, e ∈ n.listIn w.db t

/-- Whatever a rewritten store verifies of the scope was appended to it. -/
def TamperEvident (n : Notary) (w : World) (s : String) : Prop :=
  ∀ db, n.Unforged w db → n.CollisionFree (fun e => n.Appended w e ∨ e ∈ n.listIn db s) →
    (n.verifyIn db s (some n.publicKey)).ok = true →
    (n.verifyIn db s (some n.publicKey)).anchored = true →
    ∀ cp, n.latestCheckpointIn db s = some cp →
      (n.listIn db s).take cp.count = (n.listIn w.db s).take cp.count

/-- **What verifies was checkpointed in some scope.** -/
theorem Honest.checkpointed (h : n.Honest w) (hforged : n.Unforged w db)
    (hfree : n.CollisionFree fun e => n.Appended w e ∨ e ∈ n.listIn db s)
    (hlinked : n.chain.Linked (n.listIn db s)) (hcp : n.latestCheckpointIn db s = some cp)
    (hanchors : n.anchors (some n.publicKey) (n.listIn db s) cp = true) :
    ∃ t signed, (t, signed) ∈ w.signed ∧ signed.count = cp.count ∧
      (n.listIn db s).take cp.count = (n.listIn w.db t).take cp.count := by
  obtain ⟨hsig, hcount, hhead⟩ := anchors_iff.mp hanchors
  obtain ⟨⟨t, signed⟩, hmem, hmsg⟩ := hforged s cp (mem_of_getLast? hcp) hsig
  obtain ⟨hsame, hsamehead⟩ := checkpointMsg_injective hmsg
  obtain ⟨hle, hof⟩ := h.signed t signed hmem
  rw [hsame] at hle hof
  refine ⟨t, signed, hmem, hsame, ?_⟩
  apply (hlinked.take cp.count).eq_of_head ((h.linked t).take cp.count)
  · intro e he e' he' hhash
    exact hfree.entryHash (.inr (mem_of_mem_take he)) (.inl ⟨t, mem_of_mem_take he'⟩) hhash
  · rw [length_take, length_take]
    omega
  · rw [hhead, ← hsamehead, congrArg Checkpoint.head hof]
    rfl

/-- The entries and a checkpoint as the only rows of a scope. -/
def planted (n : Notary) (s : String) (entries : List AuditEntry) (cp : Checkpoint) : Db :=
  n.addCheckpoint (entries.foldl (fun db e => n.addEntry db s e) {}) s cp

theorem addEntries_spec (s : String) (entries : List AuditEntry) (db : Db) (h : db.Sequential) :
    (entries.foldl (fun db e => n.addEntry db s e) db).Sequential ∧
      n.listIn (entries.foldl (fun db e => n.addEntry db s e) db) s = n.listIn db s ++ entries ∧
      ∀ t, n.checkpointsIn (entries.foldl (fun db e => n.addEntry db s e) db) t =
        n.checkpointsIn db t := by
  induction entries generalizing db with
  | nil => exact ⟨h, (append_nil _).symm, fun _ => rfl⟩
  | cons e entries ih =>
    obtain ⟨hseq, hlist, hcps⟩ := ih _ (filed_sequential h (scopeFor s) "entry" (n.entries.write e))
    refine ⟨hseq, hlist.trans ?_, fun t => (hcps t).trans (checkpointsIn_addEntry h s t e)⟩
    have hadd := listIn_addEntry (n := n) h s s e
    rw [if_pos rfl] at hadd
    rw [show n.listIn (filed db _ _ _) s = _ from hadd, append_assoc, singleton_append]

/-- **What was signed in one scope verifies in another.** -/
theorem Honest.planted_verifies (h : n.Honest w) (hfree : n.CollisionFree (n.Appended w))
    (hcp : (t, cp) ∈ w.signed) (s : String) :
    let db := n.planted s (n.listIn w.db t) cp
    n.Unforged w db ∧ n.CollisionFree (fun e => n.Appended w e ∨ e ∈ n.listIn db s) ∧
      n.listIn db s = n.listIn w.db t ∧ n.latestCheckpointIn db s = some cp ∧
      (n.verifyIn db s (some n.publicKey)).ok = true ∧
      (n.verifyIn db s (some n.publicKey)).anchored = true := by
  intro db
  have hdb : db = n.addCheckpoint ((n.listIn w.db t).foldl (fun db e => n.addEntry db s e) {}) s cp := rfl
  obtain ⟨hseq, hlist, hcps⟩ := addEntries_spec (n := n) s (n.listIn w.db t) {}
    fun _ => Sequenced.nil
  have hall : ∀ u, n.checkpointsIn db u = if s = u then [cp] else [] := by
    intro u
    rw [hdb, checkpointsIn_addCheckpoint hseq, hcps]
    rfl
  have hentries : n.listIn db s = n.listIn w.db t := by
    rw [hdb, listIn_addCheckpoint hseq, hlist]
    rfl
  have hlatest : n.latestCheckpointIn db s = some cp := by
    rw [latestCheckpointIn_eq, hall, if_pos rfl]
    rfl
  obtain ⟨hcount, hof⟩ := h.signed t cp hcp
  have hlength : ((n.listIn w.db t).take cp.count).length = cp.count := by
    rw [length_take]
    omega
  have hanchors : n.anchors (some n.publicKey) (n.listIn db s) cp = true := by
    rw [anchors_iff, hentries]
    refine ⟨?_, hcount, (congrArg Checkpoint.head hof).symm⟩
    have hsig : cp.sig = n.sign (checkpointMsg cp.count cp.head) := by
      rw [congrArg Checkpoint.sig hof, congrArg Checkpoint.head hof]
      show n.sign (checkpointMsg ((n.listIn w.db t).take cp.count).length _) = _
      rw [hlength]
      rfl
    rw [hsig]
    exact n.verifies _
  have hlinked : n.chain.Linked (n.listIn db s) := hentries ▸ h.linked t
  refine ⟨?_, ?_, hentries, hlatest, verifyIn_iff.mpr ⟨hlinked, cp, hlatest, hanchors⟩⟩
  · intro u c hc _
    rw [hall] at hc
    by_cases hu : s = u
    · rw [if_pos hu, mem_singleton] at hc
      exact ⟨(t, cp), hcp, by rw [hc]⟩
    · rw [if_neg hu] at hc
      cases hc
  · have happended : ∀ e, (n.Appended w e ∨ e ∈ n.listIn db s) → n.Appended w e := by
      rintro e (he | he)
      · exact he
      · exact ⟨t, hentries ▸ he⟩
    intro e e' he he'
    exact hfree e e' (happended e he) (happended e' he')

/-- **Tampering with a scope is evident exactly when every timeline that was checkpointed, of any
scope, is a beginning of its own.**  For every interleaving of the calls before. -/
theorem tamper_evident_iff (n : Notary) (labels : List Label) (w : World)
    (hrun : n.run labels = some w) (hfree : n.CollisionFree (n.Appended w)) (s : String) :
    n.TamperEvident w s ↔ ∀ t cp, (t, cp) ∈ w.signed →
      (n.listIn w.db t).take cp.count = (n.listIn w.db s).take cp.count := by
  have h := Honest.of_run hrun
  constructor
  · intro hevident t cp hcp
    obtain ⟨hforged, hdb, hentries, hlatest, hok, hanchored⟩ := h.planted_verifies hfree hcp s
    rw [← hevident _ hforged hdb hok hanchored cp hlatest, hentries]
  · intro hsame db hforged hdb hok hanchored cp hcp
    obtain ⟨hlinked, c, hc, hanchors⟩ := verifyIn_iff.mp ⟨hok, hanchored⟩
    obtain rfl : c = cp := Option.some.inj (hc.symm.trans hcp)
    obtain ⟨t, signed, hmem, hcount, heq⟩ := h.checkpointed hforged hdb hlinked hc hanchors
    rw [heq, ← hcount]
    exact hsame t signed hmem

end Notary

/-! ## A timeline in another scope -/

def acmeEntry : AuditEntry := sampleNotary.nextEntry [] "ann" "member.role" "bob"

def acmeAppended : World :=
  World.setCall { db := sampleNotary.addEntry {} "acme" acmeEntry } 0 (some (.appended "acme"))

/-- A call of `acme` has appended its entry and signed its checkpoint. -/
def acmeWorld : World :=
  World.setCall { acmeAppended with signed := [("acme", sampleNotary.checkpointOf [acmeEntry])] } 0
    (some (.signed "acme" (sampleNotary.checkpointOf [acmeEntry])))

theorem listIn_acmeWorld (t : String) :
    sampleNotary.listIn acmeWorld.db t = if "acme" = t then [acmeEntry] else [] :=
  Notary.listIn_addEntry (Notary.Honest.start sampleNotary).sequential "acme" t acmeEntry

theorem run_acmeWorld : sampleNotary.run (raceLabels.take 2) = some acmeWorld := by
  have happend : sampleNotary.step {} (.append 0 "acme" "ann" "member.role" "bob") = some acmeAppended := by
    exact ((Notary.Honest.start sampleNotary).step_iff _).mpr ⟨rfl, rfl⟩
  have hread : sampleNotary.step acmeAppended (.read 0 "acme") = some acmeWorld := by
    have hlist : sampleNotary.listIn acmeAppended.db "acme" = [acmeEntry] := by
      rw [show acmeAppended.db = acmeWorld.db from rfl, listIn_acmeWorld, if_pos rfl]
    rfl
  simp [Notary.run, raceLabels, happend, hread]

theorem acmeWorld_collisionFree : sampleNotary.CollisionFree (sampleNotary.Appended acmeWorld) := by
  have honly : ∀ e, sampleNotary.Appended acmeWorld e → e = acmeEntry := by
    rintro e ⟨t, he⟩
    rw [listIn_acmeWorld] at he
    by_cases ht : "acme" = t
    · rw [if_pos ht] at he
      exact mem_singleton.mp he
    · rw [if_neg ht] at he
      cases he
  intro e e' he he' _
  rw [honly e he, honly e' he']

/-- **The timeline of `acme` verifies in `zeta`, where nothing was appended.** -/
theorem timeline_planted : ∃ db cp, sampleNotary.Unforged acmeWorld db ∧
    sampleNotary.CollisionFree
      (fun e => sampleNotary.Appended acmeWorld e ∨ e ∈ sampleNotary.listIn db "zeta") ∧
    (sampleNotary.verifyIn db "zeta" (some sampleNotary.publicKey)).ok = true ∧
    (sampleNotary.verifyIn db "zeta" (some sampleNotary.publicKey)).anchored = true ∧
    sampleNotary.latestCheckpointIn db "zeta" = some cp ∧
    (sampleNotary.listIn db "zeta").take cp.count = [acmeEntry] ∧
    sampleNotary.listIn acmeWorld.db "zeta" = [] := by
  obtain ⟨hforged, hfree, hentries, hlatest, hok, hanchored⟩ :=
    (Notary.Honest.of_run run_acmeWorld).planted_verifies acmeWorld_collisionFree
      (t := "acme") mem_cons_self "zeta"
  refine ⟨_, _, hforged, hfree, hok, hanchored, hlatest, ?_, ?_⟩
  · rw [hentries, listIn_acmeWorld, if_pos rfl]
    rfl
  · rw [listIn_acmeWorld, if_neg (by decide)]

theorem tamper_evident_iff_acme : sampleNotary.TamperEvident acmeWorld "acme" := by
  apply (sampleNotary.tamper_evident_iff _ acmeWorld run_acmeWorld acmeWorld_collisionFree "acme").mpr
  intro t cp hcp
  obtain ⟨rfl, -⟩ := Prod.mk.inj (mem_singleton.mp hcp)
  rfl

end GaugeDesk.Audit
