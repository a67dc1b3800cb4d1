/-
One transaction with the kernel for each change of a link.

A change of a link or of its addresses looks up what it needs, one request after the other, and then
makes one request that changes the host.  `transcript` plays this through for replies that are
known: the requests that are made, and whether the change is acknowledged.  Each primitive conducts
the transcript of its lookups and its change, and what makes a transcript safe is shown by induction
on the lookups: whatever fails is the last request, so a failure is never followed by a change.
-/

import HostNet.Kernel.Host
import Mathlib.Data.List.Basic

namespace HostNet

/-! ## Acknowledgements -/

/-- A change is acknowledged by a reply that ends without an error: by an acknowledgement, or by its
end with no messages before it. -/
def Reply.Acknowledges (r : Reply) : Prop :=
  r.ending = .acknowledged ∨ r.ending = .done ∧ r.links = [] ∧ r.addresses = []

/-- A change counts as made only if the kernel has said so. -/
theorem Reply.acknowledgement_eq_given_iff {r : Reply} :
    r.acknowledgement = .given () ↔ r.Acknowledges := by
  unfold acknowledgement atEnd Acknowledges
  cases r.ending <;> simp

/-! ## Lookups and what they find -/

/-- What is looked up before a change. -/
inductive Lookup where
  | link (name : String)
  /-- The message of an address, on the link that was found before. -/
  | address (net : IpNet)

/-- What a lookup finds. -/
inductive Finding where
  | index (i : UInt32)
  | message (m : AddressMessage)

namespace Lookup

/-- The request of a lookup. -/
def request : Lookup → Request
  | link name => .findLink name
  | address _ => .listAddresses

/-- What a lookup finds in a reply, after what was found before; nothing if it fails. -/
def finding? : Lookup → List Finding → Reply → Option Finding
  | link _, _, reply =>
    match reply.firstLink with
    | .given (some m) => some (.index m.index)
    | _ => none
  | address net, [.index i], reply =>
    match reply.addressListing with
    | .given messages =>
      ((messages.filter fun m => m.index == i).find? fun m => m.net? == some net).map .message
    | _ => none
  | address _, _, _ => none

/-- Looking something up changes nothing. -/
theorem isChange_request (l : Lookup) : l.request.isChange = false := by cases l <;> rfl

variable {found : List Finding} {reply : Reply} {f : Finding}

theorem exists_index_of_finding? {name : String} (h : (link name).finding? found reply = some f) :
    ∃ i, f = .index i := by
  rw [finding?] at h
  split at h
  · next m _ => exact ⟨m.index, (Option.some.inj h).symm⟩
  · cases h

theorem exists_message_of_finding? {net : IpNet} {i : UInt32}
    (h : (address net).finding? [.index i] reply = some f) : ∃ m, f = .message m := by
  rw [finding?] at h
  split at h
  · obtain ⟨m, -, hm⟩ := Option.map_eq_some_iff.mp h
    exact ⟨m, hm.symm⟩
  · cases h

end Lookup

/-- What some lookups find one after the other, if none of them fails. -/
def findings? : List Lookup → List Finding → List Reply → Option (List Finding)
  | [], found, _ => some found
  | l :: ls, found, replies =>
    match l.finding? found (replies.headD .silent) with
    | some f => findings? ls (found ++ [f]) (replies.drop 1)
    | none => none

/-- Lookups build on each other: the next one knows what the ones before have found. -/
theorem findings?_cons_eq_some {l : Lookup} {ls : List Lookup} {found fs : List Finding}
    {replies : List Reply} :
    findings? (l :: ls) found replies = some fs ↔
      ∃ f, l.finding? found (replies.headD .silent) = some f ∧
        findings? ls (found ++ [f]) (replies.drop 1) = some fs := by
  rw [findings?]
  cases l.finding? found (replies.headD .silent) <;> simp

/-- The requests that some lookups and the change after them make, and whether the change is
acknowledged. -/
def transcript (change? : List Finding → Option Request) :
    List Lookup → List Finding → List Reply → List Request × Bool
  | [], found, replies =>
    match change? found with
    | some r => ([r], (replies.headD .silent).acknowledgement == .given ())
    | none => ([], false)
  | l :: ls, found, replies =>
    match l.finding? found (replies.headD .silent) with
    | some f =>
      let rest := transcript change? ls (found ++ [f]) (replies.drop 1)
      (l.request :: rest.1, rest.2)
    | none => ([l.request], false)

section Transcript

variable {change? : List Finding → Option Request} {ls : List Lookup} {found fs : List Finding}
  {replies : List Reply}

/-- If all is found, the change follows all the lookups. -/
theorem transcript_of_findings {r : Request} (hfs : findings? ls found replies = some fs)
    (hr : change? fs = some r) :
    transcript change? ls found replies = (ls.map Lookup.request ++ [r],
      (replies.getD ls.length .silent).acknowledgement == .given ()) := by
  induction ls generalizing found replies with
  | nil =>
    obtain rfl : found = fs := Option.some.inj hfs
    cases replies <;> simp [transcript, hr]
  | cons l ls ih =>
    obtain ⟨f, hf, hfs⟩ := findings?_cons_eq_some.mp hfs
    have hreply : (replies.drop 1).getD ls.length .silent =
        replies.getD (l :: ls).length .silent := by
      cases replies <;> simp
    rw [transcript, hf]
    dsimp only
    rw [ih hfs, hreply]
    rfl

/-- If a lookup fails, its request is the last one. -/
theorem transcript_of_no_findings (change? : List Finding → Option Request)
    (h : findings? ls found replies = none) :
    ∃ k < ls.length, (findings? (ls.take k) found replies).isSome ∧
      transcript change? ls found replies = ((ls.take (k + 1)).map Lookup.request, false) := by
  induction ls generalizing found replies with
  | nil => cases h
  | cons l ls ih =>
    rw [findings?] at h
    split at h
    · next f hf =>
      obtain ⟨k, hk, hsome, hrun⟩ := ih h
      refine ⟨k + 1, Nat.succ_lt_succ hk, ?_, ?_⟩
      · rw [List.take_succ_cons, findings?, hf]
        exact hsome
      · rw [transcript, hf]
        dsimp only
        rw [hrun, List.take_succ_cons, List.map_cons]
    · next hnone =>
      refine ⟨0, Nat.succ_pos _, rfl, ?_⟩
      rw [transcript, hnone, List.take_succ_cons, List.take_zero, List.map_singleton]

/-- What all lookups find, the first of them find as well. -/
theorem isSome_findings?_take (k : Nat) (h : (findings? ls found replies).isSome) :
    (findings? (ls.take k) found replies).isSome := by
  induction ls generalizing k found replies with
  | nil =>
    rw [List.take_nil]
    exact h
  | cons l ls ih =>
    cases k with
    | zero => rfl
    | succ k =>
      rw [findings?] at h
      rw [List.take_succ_cons, findings?]
      cases hf : l.finding? found (replies.headD .silent) with
      | some f =>
        rw [hf] at h
        exact ih k h
      | none =>
        rw [hf] at h
        cases h

end Transcript

/-! ## Actions that conduct a transcript -/

/-- The action makes the requests of a transcript, and succeeds exactly if that says so. -/
def Conducts {α : Type} (x : Action Conversation α) (t : List Reply → List Request × Bool) : Prop :=
  ∀ c, (x.outcome c).2 = ⟨c.requests ++ (t c.replies).1, c.replies.drop (t c.replies).1.length⟩ ∧
    (x.outcome c).1.isOk = (t c.replies).2

section Conducts

variable {α β : Type} {change? : List Finding → Option Request} {ls : List Lookup}
  {found : List Finding} {t : List Reply → List Request × Bool}

theorem conducts_throw (e : Error) :
    Conducts (throw e : Action Conversation α) fun _ => ([], false) := by
  intro c
  rw [Action.outcome_throw]
  simp [Except.isOk, Except.toBool]

/-- What is answered in the end makes no request. -/
theorem Conducts.answering {x : Action Conversation α} (hx : Conducts x t) (b : β) :
    Conducts (x >>= fun _ => pure b) t := by
  intro c
  obtain ⟨hstate, hok⟩ := hx c
  rw [Action.outcome_bind]
  cases h : x.outcome c with
  | mk answer d =>
    rw [h] at hstate hok
    cases answer with
    | ok a => exact ⟨hstate, hok⟩
    | error e => exact ⟨hstate, hok⟩

/-- An action that makes the request of a lookup first, and then either fails, as the lookup does,
or goes on as some other action does that conducts the rest. -/
theorem conducts_lookup {x : Action Conversation α} (l : Lookup)
    (hx : ∀ c,
      (∃ f y, l.finding? found (c.replies.headD .silent) = some f ∧
        Conducts y (transcript change? ls (found ++ [f])) ∧
        x.outcome c = y.outcome ⟨c.requests ++ [l.request], c.replies.drop 1⟩) ∨
      l.finding? found (c.replies.headD .silent) = none ∧
        ∃ e, x.outcome c = (.error e, ⟨c.requests ++ [l.request], c.replies.drop 1⟩)) :
    Conducts x (transcript change? (l :: ls) found) := by
  intro c
  rcases hx c with ⟨f, y, hf, hy, hrun⟩ | ⟨hnone, e, hrun⟩
  · -- The rest is conducted from where the lookup has left the conversation.
    obtain ⟨hstate, hok⟩ := hy ⟨c.requests ++ [l.request], c.replies.drop 1⟩
    rw [hrun, transcript, hf]
    refine ⟨?_, hok⟩
    rw [hstate]
    simp
  · rw [hrun, transcript, hnone]
    exact ⟨rfl, rfl⟩

/-- Nothing is requested under a name that is not legal. -/
theorem conducts_named (text : String) {f : LinkName → Action Conversation α}
    (hf : ∀ n, n.text = text → Conducts (f n) t) :
    Conducts (Action.ofExcept (LinkName.ofString text) >>= f)
      (if (LinkName.defect? text).isNone then t else fun _ => ([], false)) := by
  cases hname : LinkName.ofString text with
  | ok n =>
    obtain rfl : n.text = text := LinkName.text_of_ofString hname
    rw [n.legal]
    exact hf n rfl
  | error e =>
    have hdefect : LinkName.defect? text ≠ none := by
      intro hlegal
      have hok : LinkName.ofString text = .ok ⟨text, hlegal⟩ :=
        LinkName.ofString_text ⟨text, hlegal⟩
      rw [hname] at hok
      cases hok
    rw [if_neg (mt Option.isNone_iff_eq_none.mp hdefect)]
    exact conducts_throw e

namespace KernelHost

variable (h : KernelHost)

/-- A request is sent, and what comes of it depends on the reply alone. -/
theorem outcome_request (p : Purpose) (r : Request) (read : Reply → Answer α) (c : Conversation) :
    (h.request p r read).outcome c = (p.conclude h.timeout (read (c.replies.headD .silent)),
      ⟨c.requests ++ [r], c.replies.drop 1⟩) := by
  simp [request, Action.outcome_bind]

theorem conducts_change (p : Purpose) {r : Request} (hr : change? found = some r) :
    Conducts (h.change p r) (transcript change? [] found) := by
  intro c
  rw [change, outcome_request, transcript, hr]
  refine ⟨rfl, ?_⟩
  cases (c.replies.headD .silent).acknowledgement <;> rfl

/-- What follows the lookup of a link may use the index that was found. -/
theorem conducts_resolve (name : String) {f : UInt32 → Action Conversation α}
    (hf : ∀ i, Conducts (f i) (transcript change? ls (found ++ [.index i]))) :
    Conducts (h.resolve name >>= f) (transcript change? (.link name :: ls) found) := by
  refine conducts_lookup (.link name) fun c => ?_
  rw [Action.outcome_bind, resolve, Action.outcome_bind, outcome_request, Lookup.finding?]
  cases (c.replies.headD .silent).firstLink with
  | given m =>
    cases m with
    | some m => exact .inl ⟨_, f m.index, rfl, hf m.index, rfl⟩
    | none => exact .inr ⟨rfl, _, rfl⟩
  | failed e => exact .inr ⟨rfl, _, rfl⟩
  | none => exact .inr ⟨rfl, _, rfl⟩

/-- What follows the lookup of an address may use the message that the kernel sent for it. -/
theorem conducts_addressesAt (p : Purpose) (i : UInt32) (net : IpNet) (e : Error)
    {f : AddressMessage → Action Conversation α}
    (hf : ∀ m, Conducts (f m) (transcript change? ls [.index i, .message m])) :
    Conducts
      (do
        let addresses ← h.addressesAt p i
        match addresses.find? fun m => m.net? == some net with
        | some m => f m
        | none => throw e)
      (transcript change? (.address net :: ls) [.index i]) := by
  refine conducts_lookup (.address net) fun c => ?_
  rw [Action.outcome_bind, addressesAt, Action.outcome_bind, outcome_request, Lookup.finding?]
  cases (c.replies.headD .silent).addressListing with
  | given messages =>
    dsimp only [Purpose.conclude, Action.outcome_pure]
    cases (messages.filter fun m => m.index == i).find? fun m => m.net? == some net with
    | some m => exact .inl ⟨_, f m, rfl, hf m, rfl⟩
    | none => exact .inr ⟨rfl, _, rfl⟩
  | failed e => exact .inr ⟨rfl, _, rfl⟩
  | none => exact .inr ⟨rfl, _, rfl⟩

end KernelHost

end Conducts

/-! ## The changes of links and addresses -/

/-- A change of a link or of its addresses. -/
inductive KernelCall where
  | createVlan (parent : String) (id : VlanId)
  | createBridge (name : String)
  | setLinkUp (name : String)
  | setLinkMaster (slave master : String)
  | unsetLinkMaster (name : String)
  | deleteLink (name : String)
  | addAddress (name : String) (net : IpNet)
  | deleteAddress (name : String) (net : IpNet)

namespace KernelCall

/-- Makes a change, without the name that the creation of a link answers. -/
def run (h : KernelHost) : KernelCall → Action Conversation Unit
  | createVlan parent id => discard (h.createVlan parent id)
  | createBridge name => discard (h.createBridge name)
  | setLinkUp name => h.setLinkUp name
  | setLinkMaster slave master => h.setLinkMaster slave master
  | unsetLinkMaster name => h.unsetLinkMaster name
  | deleteLink name => h.deleteLink name
  | addAddress name net => h.addAddress name net
  | deleteAddress name net => h.deleteAddress name net

/-- The name of the link that a call creates. -/
def created? (h : KernelHost) : KernelCall → Option String
  | createVlan parent id => some (vlanName parent id)
  | createBridge name => some (h.naming.bridgeName name)
  | _ => none

/-- Whether the name of the new link is legal, if a call creates one. -/
def passes (h : KernelHost) (call : KernelCall) : Bool :=
  (call.created? h).all fun name => (LinkName.defect? name).isNone

/-- What a call looks up. -/
def lookups : KernelCall → List Lookup
  | createVlan parent _ => [.link parent]
  | createBridge _ => []
  | setLinkUp name => [.link name]
  | setLinkMaster slave master => [.link slave, .link master]
  | unsetLinkMaster name => [.link name]
  | deleteLink name => [.link name]
  | addAddress name _ => [.link name]
  | deleteAddress name net => [.link name, .address net]

/-- The change that a call requests with what it has found. -/
def change? (h : KernelHost) : KernelCall → List Finding → Option Request
  | createVlan parent id, [.index i] => some (.createVlan (vlanName parent id) i id)
  | createBridge name, [] => some (.createBridge (h.naming.bridgeName name))
  | setLinkUp _, [.index i] => some (.setUp i)
  | setLinkMaster .., [.index i, .index j] => some (.setMaster i (some j))
  | unsetLinkMaster _, [.index i] => some (.setMaster i none)
  | deleteLink _, [.index i] => some (.deleteLink i)
  | addAddress _ net, [.index i] => some (.addAddress i net)
  | deleteAddress .., [.index _, .message m] => some (.deleteAddress m)
  | _, _ => none

/-- A call makes no request if its name check fails, and conducts its transcript if that passes. -/
theorem conducts_run (h : KernelHost) (call : KernelCall) :
    Conducts (call.run h) (if call.passes h then transcript (call.change? h) call.lookups []
      else fun _ => ([], false)) := by
  -- Each primitive is a chain of lookups with its change at the end; the names that are checked are
  -- those that the change carries.
  cases call with
  | createVlan parent id =>
    refine Conducts.answering (conducts_named _ fun n hn => ?_) ()
    refine h.conducts_resolve parent fun i => Conducts.answering (h.conducts_change _ ?_) n.text
    rw [hn]
    rfl
  | createBridge name =>
    refine Conducts.answering (conducts_named _ fun n hn => ?_) ()
    refine Conducts.answering (h.conducts_change _ ?_) n.text
    rw [hn]
    rfl
  | setLinkMaster slave master =>
    exact h.conducts_resolve slave fun i => h.conducts_resolve master fun j =>
      h.conducts_change _ rfl
  | deleteAddress name net =>
    exact h.conducts_resolve name fun i =>
      h.conducts_addressesAt _ i net _ fun m => h.conducts_change _ rfl
  | setLinkUp | unsetLinkMaster | deleteLink | addAddress =>
    exact h.conducts_resolve _ fun i => h.conducts_change _ rfl

/-! ## One transaction for each change -/

variable {h : KernelHost} {call : KernelCall} {replies : List Reply} {fs : List Finding}

/-- What a call finds is what it needs for its change. -/
theorem exists_change (h : KernelHost) (hfs : findings? call.lookups [] replies = some fs) :
    ∃ r, call.change? h fs = some r ∧ r.isChange = true := by
  cases call with
  | createBridge name =>
    cases hfs
    exact ⟨_, rfl, rfl⟩
  | setLinkMaster slave master =>
    obtain ⟨f, hf, hfs⟩ := findings?_cons_eq_some.mp hfs
    obtain ⟨g, hg, hfs⟩ := findings?_cons_eq_some.mp hfs
    obtain ⟨i, rfl⟩ := Lookup.exists_index_of_finding? hf
    obtain ⟨j, rfl⟩ := Lookup.exists_index_of_finding? hg
    cases hfs
    exact ⟨_, rfl, rfl⟩
  | deleteAddress name net =>
    -- Two lookups: the address is looked up at the index that the first one has found.
    obtain ⟨f, hf, hfs⟩ := findings?_cons_eq_some.mp hfs
    obtain ⟨g, hg, hfs⟩ := findings?_cons_eq_some.mp hfs
    obtain ⟨i, rfl⟩ := Lookup.exists_index_of_finding? hf
    obtain ⟨m, rfl⟩ := Lookup.exists_message_of_finding? hg
    cases hfs
    exact ⟨_, rfl, rfl⟩
  | createVlan | setLinkUp | unsetLinkMaster | deleteLink | addAddress =>
    obtain ⟨f, hf, hfs⟩ := findings?_cons_eq_some.mp hfs
    obtain ⟨i, rfl⟩ := Lookup.exists_index_of_finding? hf
    cases hfs
    exact ⟨_, rfl, rfl⟩

/-- The requests of a call that is given these replies, and whether it succeeds. -/
structure Transaction (h : KernelHost) (call : KernelCall) (replies : List Reply)
    (sent : List Request) (ok : Bool) : Prop where
  /-- No request but the last one changes the host. -/
  change_last : ∀ r ∈ sent.dropLast, r.isChange = false
  /-- The other requests are lookups of the call, in their order. -/
  looks : (sent.filter fun r => !r.isChange) <+: call.lookups.map Lookup.request
  /-- The change is requested exactly if the name check passes and all lookups succeed. -/
  change_iff : (∃ r ∈ sent, r.isChange = true) ↔
    call.passes h = true ∧ (findings? call.lookups [] replies).isSome
  /-- It is made of what they have found. -/
  carries : ∀ r ∈ sent, r.isChange = true →
    ∃ fs, findings? call.lookups [] replies = some fs ∧ call.change? h fs = some r
  /-- The call succeeds exactly if the change was requested and is acknowledged. -/
  ok_iff : ok = true ↔ ∃ r, sent.getLast? = some r ∧ r.isChange = true ∧
    (replies.getD (sent.length - 1) .silent).Acknowledges
  /-- Whatever is followed by another request is a lookup that has succeeded. -/
  answered : ∀ i, i + 1 < sent.length →
    (findings? (call.lookups.take (i + 1)) [] replies).isSome

theorem isChange_of_mem_map_request {ls : List Lookup} {r : Request}
    (hr : r ∈ ls.map Lookup.request) : r.isChange = false := by
  obtain ⟨l, -, rfl⟩ := List.mem_map.mp hr
  exact l.isChange_request

theorem filter_map_request (ls : List Lookup) :
    (ls.map Lookup.request).filter (fun r => !r.isChange) = ls.map Lookup.request := by
  rw [List.filter_eq_self]
  intro r hr
  rw [isChange_of_mem_map_request hr]
  rfl

/-- A call that its checks refuse sends nothing. -/
theorem Transaction.refused (hpasses : call.passes h = false) :
    Transaction h call replies [] false where
  change_last := nofun
  looks := List.nil_prefix
  change_iff := by simp [hpasses]
  carries := nofun
  ok_iff := by simp
  answered _ hi := absurd hi (Nat.not_lt_zero _)

/-- Where a lookup fails, nothing is sent after it. -/
theorem Transaction.missed {k : Nat} (hk : k < call.lookups.length)
    (hnone : findings? call.lookups [] replies = none)
    (hsome : (findings? (call.lookups.take k) [] replies).isSome) :
    Transaction h call replies ((call.lookups.take (k + 1)).map Lookup.request) false where
  change_last r hr := isChange_of_mem_map_request (List.dropLast_subset _ hr)
  looks := by
    rw [filter_map_request]
    exact (List.take_prefix ..).map _
  change_iff := by
    rw [hnone]
    constructor
    · rintro ⟨r, hr, hchange⟩
      rw [isChange_of_mem_map_request hr] at hchange
      cases hchange
    · rintro ⟨-, h⟩
      cases h
  carries r hr hchange := by
    rw [isChange_of_mem_map_request hr] at hchange
    cases hchange
  ok_iff := by
    constructor
    · exact nofun
    · rintro ⟨r, hr, hchange, -⟩
      rw [isChange_of_mem_map_request (List.mem_of_getLast? hr)] at hchange
      cases hchange
  -- Each lookup before the one that failed has found something.
  answered i hi := by
    rw [List.length_map, List.length_take] at hi
    have hfirst := isSome_findings?_take (i + 1) hsome
    rwa [List.take_take, Nat.min_eq_left (by omega)] at hfirst

/-- Where all lookups succeed, one change is sent, and the call succeeds if the kernel acknowledges
it. -/
theorem Transaction.made {r : Request} (hpasses : call.passes h = true)
    (hfs : findings? call.lookups [] replies = some fs) (hr : call.change? h fs = some r)
    (hchange : r.isChange = true) :
    Transaction h call replies (call.lookups.map Lookup.request ++ [r])
      ((replies.getD call.lookups.length .silent).acknowledgement == .given ()) where
  change_last q hq := by
    rw [List.dropLast_concat] at hq
    exact isChange_of_mem_map_request hq
  looks := by
    rw [List.filter_append, filter_map_request]
    simp [hchange]
  change_iff := by
    rw [hfs, hpasses]
    exact ⟨fun _ => ⟨rfl, rfl⟩, fun _ => ⟨r, by simp, hchange⟩⟩
  carries q hq hqchange := by
    rcases List.mem_append.mp hq with hq | hq
    · rw [isChange_of_mem_map_request hq] at hqchange
      cases hqchange
    · rw [List.mem_singleton.mp hq]
      exact ⟨fs, hfs, hr⟩
  ok_iff := by simp [hchange, Reply.acknowledgement_eq_given_iff]
  answered i hi := isSome_findings?_take (i + 1) (by rw [hfs]; rfl)

/-- Whatever the replies of the kernel are, a call that changes a link or its addresses requests one
change at most, after lookups alone and as its last request.  It does so only if the name check and
all lookups have succeeded, and it succeeds exactly if the change is acknowledged.  So nothing is
requested after a failure. -/
theorem transacts (h : KernelHost) (call : KernelCall) (c : Conversation) :
    ∃ sent, ((call.run h).outcome c).2 = ⟨c.requests ++ sent, c.replies.drop sent.length⟩ ∧
      Transaction h call c.replies sent ((call.run h).outcome c).1.isOk := by
  obtain ⟨hstate, hok⟩ := conducts_run h call c
  refine ⟨_, hstate, ?_⟩
  rw [hok]
  cases hpasses : call.passes h with
  | false => exact .refused hpasses
  | true =>
    rw [if_pos rfl]
    cases hfs : findings? call.lookups [] c.replies with
    | none =>
      obtain ⟨k, hk, hsome, ht⟩ := transcript_of_no_findings (call.change? h) hfs
      rw [ht]
      exact .missed hk hfs hsome
    | some fs =>
      obtain ⟨r, hr, hchange⟩ := exists_change h hfs
      rw [transcript_of_findings hfs hr]
      exact .made hpasses hfs hr hchange

-- Both links are found, the second in a reply that never ends, and the change names their indices.
example :
    (((setLinkMaster "eth0" "rol.a").run ⟨.standard, .ofSeconds 10⟩).outcome
      ⟨[], [⟨[⟨7, false, []⟩], [], .done⟩, ⟨[⟨9, false, []⟩], [], .silence⟩]⟩).2.requests =
        [.findLink "eth0", .findLink "rol.a", .setMaster 7 (some 9)] := by
  decide

end KernelCall

end HostNet
