import GaugeDesk.Signing.Signature

/-!
# Account: from a pinned root to the current one

`root_chain_reaches` of the directory protocol walks a list of transitions, as an
untrusted directory gives it, and takes those that leave the root it stands at.  What
it accepts holds a chain of verified transitions, and stays accepted:

    accepted → a sublist leads from the pinned root to the current one, and
      so does every longer list  (root_chain_sound)
-/

namespace GaugeDesk.Account

open Signing

structure RootTransition where
  fromRoot : String
  toRoot : String
  issuedAtMs : Nat
  signature : Signature
deriving DecidableEq, Repr

/-- `root_transition_signing_bytes`: the JSON of the tag, the two roots and the time. -/
abbrev TransitionBytes := String → String → Nat → Option (List UInt8)

section
variable (verify : Verification) (signingBytes : TransitionBytes)

def rootTransitionVerifies (transition : RootTransition) : Bool :=
  if transition.fromRoot = "" ∨ transition.toRoot = "" ∨ transition.fromRoot = transition.toRoot then
    false
  else
    match signingBytes transition.fromRoot transition.toRoot transition.issuedAtMs with
    | none => false
    | some bytes =>
      match verify bytes transition.signature transition.fromRoot with
      | .ok valid => valid
      | .error _ => false

/-- The loop over the transitions, standing at a root. -/
def walkChain (current : String) : String → List RootTransition → Bool
  | _, [] => false
  | at', transition :: chain =>
    if transition.fromRoot ≠ at' then walkChain current at' chain
    else if ¬ rootTransitionVerifies verify signingBytes transition then false
    else if transition.toRoot = current then true
    else walkChain current transition.toRoot chain

def rootChainReaches (pinned current : String) (chain : List RootTransition) : Bool :=
  if pinned = current then true else walkChain verify signingBytes current pinned chain

/-! ## What is accepted -/

/-- Transitions from one root to another, each signed by the root it leaves. -/
def Leads : String → List RootTransition → String → Prop
  | root, [], current => root = current
  | root, transition :: chain, current => transition.fromRoot = root ∧
      rootTransitionVerifies verify signingBytes transition = true ∧ Leads transition.toRoot chain current

variable {verify signingBytes}

/-- The walk ends at the current root, whatever it has skipped and whatever follows. -/
theorem walkChain_sound {root current : String} {chain : List RootTransition}
    (h : walkChain verify signingBytes current root chain = true) :
    (∃ links, links.Sublist chain ∧ Leads verify signingBytes root links current) ∧
      ∀ more, walkChain verify signingBytes current root (chain ++ more) = true := by
  induction chain generalizing root with
  | nil => cases h
  | cons transition chain ih =>
    rw [walkChain] at h
    simp only [List.cons_append, walkChain]
    by_cases hfrom : transition.fromRoot = root
    · rw [if_neg (not_not.mpr hfrom)] at h
      subst hfrom
      by_cases hverifies : rootTransitionVerifies verify signingBytes transition = true
      · rw [if_neg (not_not.mpr hverifies)] at h
        by_cases hto : transition.toRoot = current
        · refine ⟨⟨[transition], List.singleton_sublist.mpr List.mem_cons_self, rfl, hverifies, hto⟩, ?_⟩
          simp [hverifies, hto]
        · rw [if_neg hto] at h
          obtain ⟨⟨links, hlinks, hleads⟩, hmore⟩ := ih h
          refine ⟨⟨transition :: links, hlinks.cons_cons _, rfl, hverifies, hleads⟩, fun more => ?_⟩
          simp [hverifies, hto, hmore more]
      · rw [if_pos hverifies] at h
        cases h
    · rw [if_pos hfrom] at h
      obtain ⟨⟨links, hlinks, hleads⟩, hmore⟩ := ih h
      refine ⟨⟨links, hlinks.cons _, hleads⟩, fun more => ?_⟩
      rw [if_pos hfrom]
      exact hmore more

end

/-- **An accepted list holds a verified chain from the pinned root to the current one**, and no
transition that follows it makes it rejected. -/
theorem root_chain_sound (verify : Verification) (signingBytes : TransitionBytes)
    (pinned current : String) (chain : List RootTransition)
    (h : rootChainReaches verify signingBytes pinned current chain = true) :
    (∃ links, links.Sublist chain ∧ Leads verify signingBytes pinned links current) ∧
      ∀ more, rootChainReaches verify signingBytes pinned current (chain ++ more) = true := by
  unfold rootChainReaches at h ⊢
  by_cases hsame : pinned = current
  · exact ⟨⟨[], List.nil_sublist _, hsame⟩, fun _ => if_pos hsame⟩
  · rw [if_neg hsame] at h
    simpa only [if_neg hsame] using walkChain_sound h

/-- The root "a" replaced by "b", with a link of another root between them. -/
theorem root_chain_sound_replaced : ∃ links,
    links.Sublist [(⟨"x", "y", 1, ⟨[]⟩⟩ : RootTransition), ⟨"a", "b", 2, ⟨[]⟩⟩] ∧
      Leads (fun _ _ _ => .ok true) (fun _ _ _ => some []) "a" links "b" :=
  (root_chain_sound _ _ "a" "b" _ (by decide)).1

end GaugeDesk.Account
