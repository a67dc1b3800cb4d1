/-
What becomes of requests while the lock is held.

A request looks at its arguments alone before it asks for the lock: at the name of a link, at the
words of a rule, at the name of a project (`SiteRequest.precheck`).  As long as another operation
holds the lock, a request that takes it fails at one of these checks or waits in vain; either way
the site stays as it is, so it does for any number of requests.
-/

import HostNet.Proofs.ManagedBridges

namespace HostNet

open HostNet.Action

namespace SiteRequest

/-- Whether a request takes the lock: all do but the readings. -/
def TakesLock : SiteRequest → Prop
  | createRule .. | deleteRule .. | save | restore | reset | isChanged | operation _ => True
  | _ => False

/-- The name under which a request asks for the lock. -/
def title : SiteRequest → String
  | createRule .. => "create_traffic_rule"
  | deleteRule .. => "delete_traffic_rule"
  | save => "save_configuration"
  | restore => "restore_from_backup"
  | reset => "reset_changes"
  | isChanged => "has_unsaved_changes"
  | operation (.createVlan ..) => "create_vlan"
  | operation (.updateVlan ..) => "update_vlan"
  | operation (.deleteVlan _) => "delete_vlan"
  | operation (.createBridge ..) => "create_bridge"
  | operation (.updateBridge ..) => "update_bridge"
  | operation (.deleteBridge _) => "delete_bridge"
  | operation (.createProject ..) => "create_project"
  | operation (.deleteProject _) => "delete_project"
  | _ => ""

/-- What a request checks before it asks for the lock. -/
def precheck (m : Manager) (pm : ProjectManager) : SiteRequest → Except Error Unit
  | createRule _ rule | deleteRule _ rule => rule.normalized.check
  | operation (.updateVlan name _) | operation (.deleteVlan name) => m.checkManaged "vlan" name
  | operation (.updateBridge name ..) | operation (.deleteBridge name) =>
    m.checkManaged "bridge" name
  | operation (.createProject name _) =>
    if name.isEmpty then .error (.validation "name" "must not be empty") else .ok ()
  | operation (.deleteProject p) =>
    if pm.naming.manages p.bridge then .ok () else .error (.notFound "bridge" p.bridge)
  | _ => .ok ()

/-- Whether a request is about a link that is not under management. -/
def Unmanaged (m : Manager) (pm : ProjectManager) : SiteRequest → Prop
  | operation (.updateVlan name _) | operation (.deleteVlan name)
  | operation (.updateBridge name ..) | operation (.deleteBridge name) =>
    m.naming.manages name = false
  | operation (.deleteProject p) => pm.naming.manages p.bridge = false
  | _ => False

/-- Whether a request has an invalid rule, or is to set up a project without a name. -/
def Malformed : SiteRequest → Prop
  | createRule _ rule | deleteRule _ rule => rule.check ≠ .ok ()
  | operation (.createProject name _) => name = ""
  | _ => False

end SiteRequest

/-! ## The checks -/

/-- A check of a rule does not look at its networks. -/
theorem Rule.check_normalized (r : Rule) : r.normalized.check = r.check := rfl

/-- Whatever is wrong with a word of a rule, the error is one of validation. -/
theorem Rule.kind_of_checkWord {field word : String} {e : Error}
    (h : checkWord field word = .error e) : e.kind = .validation := by
  unfold checkWord at h
  split at h
  · cases h
    rfl
  · split at h
    · cases h
      rfl
    · cases h

theorem Rule.kind_of_check {r : Rule} {e : Error} (h : r.check = .error e) :
    e.kind = .validation := by
  unfold check at h
  cases hchain : checkWord "chain" r.chain with
  | ok u =>
    rw [hchain] at h
    exact kind_of_checkWord h
  | error e' =>
    rw [hchain] at h
    cases h
    exact kind_of_checkWord hchain

/-- A check fails exactly for what it is to find: what is not under management counts as missing,
and what is malformed as invalid. -/
def Judges (unmanaged malformed : Prop) : Except Error Unit → Prop
  | .ok () => ¬ unmanaged ∧ ¬ malformed
  | .error e => unmanaged ∧ e.kind = .notFound ∨ malformed ∧ e.kind = .validation

theorem Manager.judges_checkManaged (m : Manager) (what name : String) :
    Judges (m.naming.manages name = false) False (m.checkManaged what name) := by
  cases hname : m.naming.manages name with
  | true =>
    rw [checkManaged_of_manages hname]
    exact ⟨nofun, id⟩
  | false =>
    rw [checkManaged_of_not_manages hname]
    exact .inl ⟨rfl, rfl⟩

/-- The normalized rule has the same words, so its check tells what that of the rule would. -/
theorem Rule.judges_check (r : Rule) : Judges False (r.check ≠ .ok ()) r.normalized.check := by
  rw [check_normalized]
  cases hcheck : r.check with
  | ok u => exact ⟨id, fun h => h rfl⟩
  | error e => exact .inr ⟨nofun, kind_of_check hcheck⟩

/-- What is checked before the lock is asked for is the name and the rule, and nothing on the
host. -/
theorem SiteRequest.judges_precheck (m : Manager) (pm : ProjectManager) (r : SiteRequest) :
    Judges (r.Unmanaged m pm) r.Malformed (r.precheck m pm) := by
  cases r with
  | createRule t rule => exact rule.judges_check
  | deleteRule t rule => exact rule.judges_check
  | operation op =>
    cases op with
    | updateVlan name _ => exact m.judges_checkManaged "vlan" name
    | deleteVlan name => exact m.judges_checkManaged "vlan" name
    | updateBridge name _ _ => exact m.judges_checkManaged "bridge" name
    | deleteBridge name => exact m.judges_checkManaged "bridge" name
    | createProject name subnet =>
      simp only [precheck]
      split
      · -- The name of a new project must not be empty, which is an error of validation.
        next hempty => exact .inr ⟨String.isEmpty_iff.mp hempty, rfl⟩
      · next hempty => exact ⟨id, fun h => hempty (String.isEmpty_iff.mpr h)⟩
    | deleteProject p =>
      simp only [precheck]
      split
      · next hname =>
        refine ⟨fun hunmanaged => ?_, id⟩
        cases hname.symm.trans hunmanaged
      · next hname => exact .inl ⟨Bool.eq_false_of_not_eq_true hname, rfl⟩
    | createVlan => exact ⟨id, id⟩
    | createBridge => exact ⟨id, id⟩
  | _ => exact ⟨id, id⟩

/-! ## Requests under a lock that is held -/

namespace Site

variable {α : Type} {s : Site} {operation : String} {x : Action Site α}

/-- Who finds the lock held has waited in vain. -/
theorem exclusively_of_held (hheld : s.lock.isHeld = true) :
    exclusively operation x s = .error (s.lock.timedOut operation) s := by
  obtain ⟨holder, hholder⟩ := Option.isSome_iff_exists.mp hheld
  unfold exclusively HostLock.acquire
  rw [get_bind]
  simp only [hholder]
  rfl

/-- The error of a request that finds the lock held: that of its check, or that of the lock. -/
def refusal (s : Site) (check : Except Error Unit) (operation : String) : Error :=
  match check with
  | .ok () => s.lock.timedOut operation
  | .error e => e

/-- Nothing but the check comes before the lock. -/
theorem checked_of_held (hheld : s.lock.isHeld = true) (check : Except Error Unit) :
    (Action.ofExcept check >>= fun _ => exclusively operation x) s =
      .error (s.refusal check operation) s := by
  cases check with
  | ok u => exact exclusively_of_held hheld
  | error e => rfl

end Site

namespace SiteRequest

variable {m : Manager} {pm : ProjectManager} {s : Site}

/-- A request that takes the lock fails at its check, or has waited in vain. -/
theorem run_of_held (hheld : s.lock.isHeld = true) {r : SiteRequest} (hr : r.TakesLock) :
    r.run m pm s = .error (s.refusal (r.precheck m pm) r.title) s := by
  cases r with
  | createRule t rule => exact discard_of_error (Site.checked_of_held hheld _)
  | deleteRule t rule => exact Site.checked_of_held hheld _
  | save => exact Site.exclusively_of_held hheld
  | restore => exact Site.exclusively_of_held hheld
  | reset => exact Site.exclusively_of_held hheld
  | isChanged => exact discard_of_error (Site.exclusively_of_held hheld)
  | operation op =>
    -- Four operations check their name first, and those on projects do so in their own way.
    cases op with
    | createVlan parent id addresses => exact discard_of_error (Site.exclusively_of_held hheld)
    | updateVlan name addresses => exact discard_of_error (Site.checked_of_held hheld _)
    | deleteVlan name => exact Site.checked_of_held hheld _
    | createBridge name slaves addresses => exact discard_of_error (Site.exclusively_of_held hheld)
    | updateBridge name slaves addresses => exact discard_of_error (Site.checked_of_held hheld _)
    | deleteBridge name => exact Site.checked_of_held hheld _
    | createProject name subnet =>
      refine discard_of_error ?_
      unfold ProjectManager.create
      simp only [precheck]
      split
      · rfl
      · exact Site.exclusively_of_held hheld
    | deleteProject p =>
      show pm.delete p s = _
      unfold ProjectManager.delete
      simp only [precheck]
      cases pm.naming.manages p.bridge with
      | true => exact Site.exclusively_of_held hheld
      | false => rfl
  | _ => exact hr.elim

/-- While another operation holds the lock, requests that take it leave the site exactly as it is,
however many there are.  Each fails: with the error of the lock, unless it is about a link that is
not under management or malformed. -/
theorem refused_of_held (m : Manager) (pm : ProjectManager) {s : Site}
    (hheld : s.lock.isHeld = true) {rs : List SiteRequest} (hrs : ∀ r ∈ rs, r.TakesLock) :
    s.carryOut m pm rs = s ∧
    ∀ r ∈ rs, ∃ e, r.run m pm s = .error e s ∧
      (r.Unmanaged m pm ∧ e.kind = .notFound ∨ r.Malformed ∧ e.kind = .validation ∨
        ¬ r.Unmanaged m pm ∧ ¬ r.Malformed ∧
          e = .ioFailure "acquire host lock"
            (r.title ++ " timed out after " ++ s.lock.timeout.text)) := by
  constructor
  · -- The induction is on the requests: after each of them the next one finds the same site.
    induction rs with
    | nil => rfl
    | cons r rs ih =>
      have hrun : r.run m pm s = _ := run_of_held hheld (hrs r (List.mem_cons_self ..))
      have hsame : ((r.run m pm).outcome s).2 = s := by
        unfold outcome
        rw [hrun]
      show Site.carryOut m pm ((r.run m pm).outcome s).2 rs = s
      rw [hsame]
      exact ih fun q hq => hrs q (List.mem_cons_of_mem _ hq)
  · intro r hr
    have hjudges := r.judges_precheck m pm
    refine ⟨_, run_of_held hheld (hrs r hr), ?_⟩
    cases hcheck : r.precheck m pm with
    | ok u =>
      rw [hcheck] at hjudges
      exact .inr (.inr ⟨hjudges.1, hjudges.2, rfl⟩)
    | error e =>
      rw [hcheck] at hjudges
      exact hjudges.imp_right .inl

/-- A site with a VLAN whose configuration is being saved, and where a failure is armed. -/
def savingSite : Site :=
  { vlanSite with lock := ⟨HostLock.standardTimeout, some "save_configuration"⟩ }

/-- A deletion of a link that is not managed, a rule without a chain, and a project that would be
fine. -/
def blockedRequests : List SiteRequest :=
  [.operation (.deleteVlan "eth0.5"), .createRule .nat (.any "" "ACCEPT"),
    .operation (.createProject "a" none)]

theorem refused_of_held_savingSite :
    savingSite.carryOut ⟨.standard⟩ ⟨.standard, "eth0"⟩ blockedRequests = savingSite ∧
    (∃ e, Manager.deleteVlan ⟨.standard⟩ "eth0.5" savingSite = .error e savingSite ∧
      e.kind = .notFound) ∧
    Operation.run ⟨.standard⟩ ⟨.standard, "eth0"⟩ (.createProject "a" none) savingSite =
      .error (.ioFailure "acquire host lock" "create_project timed out after 30s") savingSite := by
  have htakes : ∀ r ∈ blockedRequests, r.TakesLock := by simp [blockedRequests, TakesLock]
  have hdelete : .operation (.deleteVlan "eth0.5") ∈ blockedRequests := by simp [blockedRequests]
  have hcreate : .operation (.createProject "a" none) ∈ blockedRequests := by
    simp [blockedRequests]
  obtain ⟨hsame, hfail⟩ :=
    refused_of_held ⟨.standard⟩ ⟨.standard, "eth0"⟩ (s := savingSite) rfl htakes
  refine ⟨hsame, ?_, ?_⟩
  · obtain ⟨e, hrun, herror⟩ := hfail _ hdelete
    have hunmanaged : Naming.standard.manages "eth0.5" = false := by decide
    refine ⟨e, hrun, ?_⟩
    rcases herror with ⟨-, hkind⟩ | ⟨hmalformed, -⟩ | ⟨hmanaged, -⟩
    · exact hkind
    · exact hmalformed.elim
    · exact absurd hunmanaged hmanaged
  · obtain ⟨e, hrun, herror⟩ := hfail _ hcreate
    have hnamed : ("a" : String) ≠ "" := by decide
    have htimeout : savingSite.lock.timeout.text = "30s" := by decide
    rcases herror with ⟨hunmanaged, -⟩ | ⟨hempty, -⟩ | ⟨-, -, rfl⟩
    · exact hunmanaged.elim
    · exact absurd hempty hnamed
    · rw [htimeout] at hrun
      exact hrun

end SiteRequest

end HostNet
