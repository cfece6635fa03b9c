import RemoteCall.Proofs.Pdu.Encoding
import RemoteCall.Proofs.Service.Messages
import RemoteCall.Service.Server.Operations
import RemoteCall.Service.Workstation.Operations

/-! Every operation answers every request that can be read (`operations_answer`). What it tells depends
on the level that is asked for: all there is where the level has a layout, and the level alone where
it has none. -/

namespace RemoteCall

open Ndr

/-! ## Requests and answers -/

/-- An operation fails exactly on stubs that are no request, as their reader does. To any request it
gives the bytes of an answer, which is read from all of them. -/
structure Answers {α β : Type} [Message α] [Message β] (handler : Handler) (Answer : α → β → Prop) :
    Prop where
  refuses : ∀ stub e, handler stub = .error e ↔ Message.decode α stub = .error e
  replies : ∀ stub r, Message.decode α stub = .ok r → ∃ bytes a d, handler stub = .ok bytes ∧
    Message.decode β bytes = .ok a ∧ (Message.read : Read β) (.ofBytes bytes) = .ok a d ∧
    d.rest = [] ∧ Answer r a

/-- What an answer tells when a level is asked for, of which only some have a layout, and what is asked
about is there or not. -/
structure Tells (levels : List UInt32) (found : Prop) (asked told status : UInt32) (hasData : Bool) :
    Prop where
  level : told = asked
  success : status = Status.success.code ↔ asked ∈ levels ∧ found
  invalidLevel : status = Status.invalidLevel.code ↔ asked ∉ levels
  netNameNotFound : status = Status.netNameNotFound.code ↔ asked ∈ levels ∧ ¬found
  data : hasData = true ↔ status = Status.success.code

section Tells

variable {levels : List UInt32} {found : Prop} {asked : UInt32}

theorem Tells.ok (hlevel : asked ∈ levels) (hfound : found) :
    Tells levels found asked asked Status.success.code true :=
  ⟨rfl, by simp [hlevel, hfound], by simp [hlevel, Status.code], by simp [hfound, Status.code],
    by simp⟩

theorem Tells.missing (hlevel : asked ∈ levels) (hfound : ¬found) :
    Tells levels found asked asked Status.netNameNotFound.code false :=
  ⟨rfl, by simp [hfound, Status.code], by simp [hlevel, Status.code], by simp [hlevel, hfound],
    by simp [Status.code]⟩

theorem Tells.unknown (hlevel : asked ∉ levels) :
    Tells levels found asked asked Status.invalidLevel.code false :=
  ⟨rfl, by simp [hlevel, Status.code], by simp [hlevel], by simp [hlevel, Status.code],
    by simp [Status.code]⟩

end Tells

section Handlers

variable {α β : Type} [Message α] [Message β] {run : α → β} {stub : List UInt8} {r : α}

theorem handler_of_decode {bytes : List UInt8} (hr : Message.decode α stub = .ok r)
    (hencode : Message.encode (run r) = .ok bytes) :
    ServerService.handler run stub = .ok bytes :=
  bind_ok_iff.mpr ⟨r, hr, hencode⟩

/-- An operation whose answers can all be read back. -/
theorem answers_of_roundTrips {Answer : α → β → Prop}
    (h : ∀ stub r, Message.decode α stub = .ok r →
      Message.RoundTrips (run r) ∧ Answer r (run r)) :
    Answers (ServerService.handler run) Answer := by
  constructor
  case refuses =>
    intro stub e
    unfold ServerService.handler
    cases hr : Message.decode α stub with
    | error e' => simp [Bind.bind, Except.bind]
    | ok r =>
      obtain ⟨⟨bytes, hencode, -⟩, -⟩ := h stub r hr
      simp [ok_bind, hencode]
  case replies =>
    intro stub r hr
    obtain ⟨⟨bytes, hencode, hdecode, d, hread, hrest⟩, hanswer⟩ := h stub r hr
    exact ⟨bytes, run r, d, handler_of_decode hr hencode, hdecode, hread, hrest, hanswer⟩

end Handlers

/-! ## Hosts and shares that can be told about -/

/-- A string whose units, with the terminator, can be counted. -/
def Tellable (s : String) : Prop := (Text.ofString s).units.length < 2 ^ 32

instance (s : String) : Decidable (Tellable s) :=
  inferInstanceAs (Decidable ((Text.ofString s).units.length < 2 ^ 32))

theorem storable_some {α : Type} [Marshal α] [LawfulMarshal α] {a : α} (h : Storable a) :
    Storable (some a) := by
  rintro _ ⟨⟩
  exact h

theorem storable_none {α : Type} [Marshal α] [LawfulMarshal α] : Storable (none : Option α) := nofun

theorem Tellable.storable {s : String} (h : Tellable s) : Storable (some (Text.ofString s)) :=
  storable_some ⟨h, nofun⟩

structure HostIdentity.IsTellable (host : HostIdentity) : Prop where
  serverName : Tellable host.serverName
  comment : Tellable host.comment
  domain : Tellable host.domain

structure Share.IsTellable (s : Share) : Prop where
  name : Tellable s.name
  comment : Tellable s.comment

instance (s : Share) : Decidable s.IsTellable :=
  decidable_of_iff (Tellable s.name ∧ Tellable s.comment)
    ⟨fun h => ⟨h.1, h.2⟩, fun h => ⟨h.name, h.comment⟩⟩

namespace ServerService

/-! ## Shares -/

def ShareListing.hasData : ShareListing → Bool
  | level0 info => info.isSome
  | level1 info => info.isSome
  | unknown _ => false

def ShareInfo.hasData : ShareInfo → Bool
  | level0 info => info.isSome
  | level1 info => info.isSome
  | unknown _ => false

def ServerInfo.hasData : ServerInfo → Bool
  | level100 info => info.isSome
  | level101 info => info.isSome
  | unknown _ => false

end ServerService

def WorkstationService.WorkstationInfo.hasData : WorkstationService.WorkstationInfo → Bool
  | level100 info => info.isSome
  | level101 info => info.isSome
  | unknown _ => false

namespace ServerService

theorem storable_ofShare {s : Share} (h : s.IsTellable) :
    Storable (ShareInfo0.ofShare s) ∧ Storable (ShareInfo1.ofShare s) :=
  ⟨h.name.storable, h.name.storable, h.comment.storable⟩

theorem storable_ofEntries {α : Type} [Marshal α] [LawfulMarshal α] {ofShare : Share → α}
    {shares : List Share} (hlength : shares.length < 2 ^ 32)
    (h : ∀ s ∈ shares, Storable (ofShare s)) :
    Storable (some (Container.ofEntries (shares.map ofShare))) := by
  have hbuffer : Storable (shares.map ofShare) := ⟨by simpa using hlength, by simpa using h⟩
  exact storable_some (storable_some hbuffer)

/-- A level with a layout is never read as one without. -/
theorem level_of_ofValue? {v : Value} {level : UInt32}
    (h : (ofValue? v : Option ShareListing) = some (.unknown level)) : level ∉ [0, 1] := by
  cases v
  case choice twice l arm =>
    cases twice
    case false => cases h
    case true =>
      change ofLevel 0 1 ShareListing.level0 ShareListing.level1 ShareListing.unknown l arm = _ at h
      unfold ofLevel at h
      split at h
      · obtain ⟨info, -, ⟨⟩⟩ := Option.bind_eq_some_iff.mp h
      · split at h
        · obtain ⟨info, -, ⟨⟩⟩ := Option.bind_eq_some_iff.mp h
        · cases h
          simp [*]
  all_goals cases h

theorem ofValue?_of_readAs {α : Type} [Marshal α] {a : α} {d d' : Decoder}
    (h : readAs α d = .ok a d') : ∃ v, ofValue? v = some a := by
  obtain ⟨v, d₁, -, hexpect⟩ := Read.bind_ok_iff.mp h
  unfold expect at hexpect
  cases hv : (ofValue? v : Option α) with
  | none =>
    rw [hv] at hexpect
    cases hexpect
  | some b =>
    rw [hv] at hexpect
    cases hexpect
    exact ⟨v, hv⟩

theorem read_of_decode {α : Type} [Message α] {stub : List UInt8} {r : α}
    (h : Message.decode α stub = .ok r) : ∃ d, (Message.read : Read α) (.ofBytes stub) = .ok r d := by
  unfold Message.decode at h
  cases hread : (Message.read : Read α) (.ofBytes stub) with
  | error e d =>
    rw [hread] at h
    cases h
  | ok a d =>
    rw [hread] at h
    cases h
    exact ⟨d, rfl⟩

/-- Shares are asked for at a level that has a layout, or at one that has none. -/
theorem ShareEnumRequest.level_of_decode {stub : List UInt8} {r : ShareEnumRequest} {level : UInt32}
    (h : Message.decode ShareEnumRequest stub = .ok r) (hinfo : r.info = .unknown level) :
    level ∉ [0, 1] := by
  obtain ⟨d, hread⟩ := read_of_decode h
  obtain ⟨serverName, d₁, -, hread⟩ := Read.bind_ok_iff.mp hread
  obtain ⟨info, d₂, hlisting, hread⟩ := Read.bind_ok_iff.mp hread
  have hr : r.info = info := by
    cases info with
    | unknown l =>
      cases hread
      rfl
    | _ =>
      obtain ⟨preferredLength, d₃, -, hread⟩ := Read.bind_ok_iff.mp hread
      obtain ⟨resume, d₄, -, ⟨⟩⟩ := Read.bind_ok_iff.mp hread
      rfl
  rw [hr] at hinfo
  subst hinfo
  obtain ⟨v, hv⟩ := ofValue?_of_readAs hlisting
  exact level_of_ofValue? hv

/-- The shares from any one on, in one answer. -/
theorem shareEnum_tells {shares : List Share} (hlength : shares.length < 2 ^ 32)
    (hshares : ∀ s ∈ shares, s.IsTellable) {r : ShareEnumRequest}
    (hlevel : ∀ level, r.info = .unknown level → level ∉ [0, 1]) :
    Message.RoundTrips (shareEnum shares r) ∧
      Tells [0, 1] True r.info.level (shareEnum shares r).info.level (shareEnum shares r).status
        (shareEnum shares r).info.hasData := by
  have hdrop : (shares.drop (r.resume.getD 0).toNat).length < 2 ^ 32 := by
    rw [List.length_drop]
    omega
  have hselected : ∀ s ∈ shares.drop (r.resume.getD 0).toNat, s.IsTellable :=
    fun s hs => hshares s (List.mem_of_mem_drop hs)
  obtain ⟨serverName, info, preferredLength, resume⟩ := r
  cases info with
  | level0 info =>
    exact ⟨ShareEnumResponse.roundTrips
      (storable_ofEntries hdrop fun s hs => (storable_ofShare (hselected s hs)).1),
      .ok (by simp [ShareListing.level]) trivial⟩
  | level1 info =>
    exact ⟨ShareEnumResponse.roundTrips
      (storable_ofEntries hdrop fun s hs => (storable_ofShare (hselected s hs)).2),
      .ok (by simp [ShareListing.level]) trivial⟩
  | unknown level =>
    have hlevel := hlevel level rfl
    have hstorable : Storable (ShareListing.unknown level) := ⟨by simp_all, by simp_all⟩
    exact ⟨ShareEnumResponse.roundTrips hstorable, .unknown hlevel⟩

theorem find?_isSome_iff {shares : List Share} {name : String} :
    (Share.find? shares name).isSome ↔ ∃ s ∈ shares, sameIgnoringCase s.name name := by
  simp [Share.find?]

/-- One share, if there is one of that name. -/
theorem shareInfo_tells {shares : List Share} (hshares : ∀ s ∈ shares, s.IsTellable)
    (r : ShareInfoRequest) :
    Message.RoundTrips (shareInfo shares r) ∧
      Tells [0, 1] (∃ s ∈ shares, sameIgnoringCase s.name r.shareName.value) r.level
        (shareInfo shares r).info.level (shareInfo shares r).status
        (shareInfo shares r).info.hasData := by
  obtain ⟨serverName, shareName, level⟩ := r
  have hknown : level ∈ [0, 1] ↔ ¬level > 1 := by
    simp [UInt32.lt_iff_toNat_lt, ← UInt32.toNat_inj]
    omega
  unfold shareInfo
  rw [← find?_isSome_iff]
  split
  case isTrue hlevel =>
    have hother : level ∉ [0, 1] := fun h => hknown.mp h hlevel
    have hstorable : Storable (ShareInfo.unknown level) := ⟨by simp_all, by simp_all⟩
    exact ⟨ShareInfoResponse.roundTrips hstorable, .unknown hother⟩
  case isFalse hlevel =>
    have hlevel := hknown.mpr hlevel
    have hcases : level = 0 ∨ level = 1 := by simpa using hlevel
    cases hfind : Share.find? shares shareName.value with
    | none =>
      have habsent : Storable (ShareInfo.absent level) := by
        rcases hcases with rfl | rfl
        · exact storable_none (α := ShareInfo0)
        · exact storable_none (α := ShareInfo1)
      rcases hcases with rfl | rfl <;>
        exact ⟨ShareInfoResponse.roundTrips habsent, .missing hlevel nofun⟩
    | some s =>
      have hs := storable_ofShare (hshares s (List.mem_of_find?_eq_some hfind))
      rcases hcases with rfl | rfl
      · exact ⟨ShareInfoResponse.roundTrips (storable_some hs.1), .ok hlevel rfl⟩
      · exact ⟨ShareInfoResponse.roundTrips (storable_some hs.2), .ok hlevel rfl⟩

/-! ## The host -/

theorem serverInfo_tells {host : HostIdentity} (hhost : host.IsTellable) (r : ServerInfoRequest) :
    Message.RoundTrips (serverInfo host r) ∧
      Tells [100, 101] True r.level (serverInfo host r).info.level (serverInfo host r).status
        (serverInfo host r).info.hasData := by
  obtain ⟨serverName, level⟩ := r
  have hname := hhost.serverName.storable
  by_cases h100 : level = 100
  · subst h100
    have hinfo : Storable (ServerInfo100.mk platformNt (some (.ofString host.serverName))) := hname
    exact ⟨ServerInfoResponse.roundTrips (storable_some hinfo), .ok (by simp) trivial⟩
  by_cases h101 : level = 101
  · subst h101
    have hinfo : Storable (ServerInfo101.mk platformNt (some (.ofString host.serverName)) host.major
        host.minor serverType (some (.ofString host.comment))) :=
      ⟨hname, hhost.comment.storable⟩
    exact ⟨ServerInfoResponse.roundTrips (storable_some hinfo), .ok (by simp) trivial⟩
  have hanswer : serverInfo host ⟨serverName, level⟩ = ⟨.unknown level, Status.invalidLevel.code⟩ := by
    simp [serverInfo, h100, h101]
  have hother : Storable (ServerInfo.unknown level) := ⟨h100, h101⟩
  rw [hanswer]
  exact ⟨ServerInfoResponse.roundTrips hother, .unknown (by simp [h100, h101])⟩

end ServerService

namespace WorkstationService

theorem info_tells {host : HostIdentity} (hhost : host.IsTellable) (r : InfoRequest) :
    Message.RoundTrips (info host r) ∧
      Tells [100, 101] True r.level (info host r).info.level (info host r).status
        (info host r).info.hasData := by
  obtain ⟨serverName, level⟩ := r
  have hname := hhost.serverName.storable
  have hgroup := hhost.domain.storable
  by_cases h100 : level = 100
  · subst h100
    have hinfo : Storable (WorkstationInfo100.mk platformNt (some (.ofString host.serverName))
        (some (.ofString host.domain)) host.major host.minor) :=
      ⟨hname, hgroup⟩
    exact ⟨InfoResponse.roundTrips (storable_some hinfo), .ok (by simp) trivial⟩
  by_cases h101 : level = 101
  · subst h101
    have hinfo : Storable (WorkstationInfo101.mk platformNt (some (.ofString host.serverName))
        (some (.ofString host.domain)) host.major host.minor none) :=
      ⟨hname, hgroup, storable_none⟩
    exact ⟨InfoResponse.roundTrips (storable_some hinfo), .ok (by simp) trivial⟩
  have hanswer : info host ⟨serverName, level⟩ = ⟨.unknown level, Status.invalidLevel.code⟩ := by
    simp [info, h100, h101]
  have hother : Storable (WorkstationInfo.unknown level) := ⟨h100, h101⟩
  rw [hanswer]
  exact ⟨InfoResponse.roundTrips hother, .unknown (by simp [h100, h101])⟩

end WorkstationService

/-! ## All operations -/

theorem sameIgnoringCase_eq (a b : String) : sameIgnoringCase a b =
    decide (a.toList.map Char.toLower = b.toList.map Char.toLower) := by
  change (a.map Char.toLower == b.map Char.toLower) = _
  rw [Bool.eq_iff_iff]
  simp [← String.toList_inj]

theorem Share.length_published_le (shares : List Share) :
    (published shares).length ≤ shares.length + 1 := by
  simpa [published] using List.length_filter_le _ shares

theorem Share.published_tellable {shares : List Share} (h : ∀ s ∈ shares, s.IsTellable) :
    ∀ s ∈ published shares, s.IsTellable := by
  intro s hs
  rcases List.mem_cons.mp hs with rfl | hs
  · exact ⟨by decide, by decide⟩
  · exact h s (List.mem_of_mem_filter hs)

open ServerService WorkstationService in
/-- **Every request that can be read is answered.** An operation fails only on stubs that are no
request, as their reader does. Its answer is read from all of its bytes and is of the level that was
asked for. It succeeds, and tells something, exactly at the levels that have a layout, where what is
asked about is there; at any other level it says that there is no such level, and nothing else. -/
theorem operations_answer (host : HostIdentity) (shares : List Share) (hhost : host.IsTellable)
    (hshares : ∀ s ∈ shares, s.IsTellable) (hlength : (Share.published shares).length < 2 ^ 32) :
    Answers ((ServerService.service host shares).dispatch shareEnumOpnum)
      (fun (r : ShareEnumRequest) (a : ShareEnumResponse) =>
        Tells [0, 1] True r.info.level a.info.level a.status a.info.hasData) ∧
    Answers ((ServerService.service host shares).dispatch shareInfoOpnum)
      (fun (r : ShareInfoRequest) (a : ShareInfoResponse) =>
        Tells [0, 1] (∃ s ∈ Share.published shares, sameIgnoringCase s.name r.shareName.value)
          r.level a.info.level a.status a.info.hasData) ∧
    Answers ((ServerService.service host shares).dispatch serverInfoOpnum)
      (fun (r : ServerInfoRequest) (a : ServerInfoResponse) =>
        Tells [100, 101] True r.level a.info.level a.status a.info.hasData) ∧
    Answers ((WorkstationService.service host).dispatch infoOpnum)
      (fun (r : InfoRequest) (a : InfoResponse) =>
        Tells [100, 101] True r.level a.info.level a.status a.info.hasData) := by
  have hpublished := Share.published_tellable hshares
  refine ⟨?shareEnum, ?shareInfo, ?serverInfo, ?info⟩
  case shareEnum =>
    exact answers_of_roundTrips fun _ _ hr =>
      shareEnum_tells hlength hpublished fun _ => ShareEnumRequest.level_of_decode hr
  case shareInfo => exact answers_of_roundTrips fun _ r _ => shareInfo_tells hpublished r
  case serverInfo => exact answers_of_roundTrips fun _ r _ => serverInfo_tells hhost r
  case info => exact answers_of_roundTrips fun _ r _ => info_tells hhost r

def sampleShares : List Share :=
  [.disk "data" "/srv/data" "Data", .disk "ipc$" "/srv/pipes" "", .disk "C$" "/" ""]

open ServerService in
/-- A request for a share by its name in another case. -/
theorem operations_answer_sampleShares :
    HostIdentity.IsTellable {} ∧ (∀ s ∈ sampleShares, s.IsTellable) ∧
    (Share.published sampleShares).length < 2 ^ 32 ∧
    ∃ stub bytes a, Message.decode ShareInfoRequest stub = .ok (.of "files" "ipc$" 1) ∧
      (ServerService.service {} sampleShares).dispatch shareInfoOpnum stub = .ok bytes ∧
      Message.decode ShareInfoResponse bytes = .ok a ∧ a.status = Status.success.code ∧
      a.info.level = 1 ∧ a.info.hasData = true := by
  have hhost : HostIdentity.IsTellable {} := ⟨by decide, by decide, by decide⟩
  have hshares : ∀ s ∈ sampleShares, s.IsTellable := by decide
  have hlength : (Share.published sampleShares).length < 2 ^ 32 :=
    Nat.lt_of_le_of_lt (Share.length_published_le sampleShares) (by decide)
  have hname : Tellable "files" := by decide
  have hshare : Tellable "ipc$" := by decide
  obtain ⟨stub, -, hstub, -⟩ : Message.RoundTrips (ShareInfoRequest.of "files" "ipc$" 1) :=
    ShareInfoRequest.roundTrips hname.storable ⟨hshare, nofun⟩
  obtain ⟨-, hinfo, -, -⟩ := operations_answer {} sampleShares hhost hshares hlength
  obtain ⟨bytes, a, d, hbytes, ha, -, -, htells⟩ := hinfo.replies stub _ hstub
  have hsame : sameIgnoringCase Share.ipc.name "ipc$" = true := by
    rw [sameIgnoringCase_eq]
    decide
  have hsuccess : a.status = Status.success.code :=
    htells.success.mpr ⟨by decide, Share.ipc, List.mem_cons_self, hsame⟩
  exact ⟨hhost, hshares, hlength, stub, bytes, a, hstub, hbytes, ha, hsuccess, htells.level,
    htells.data.mpr hsuccess⟩

end RemoteCall
