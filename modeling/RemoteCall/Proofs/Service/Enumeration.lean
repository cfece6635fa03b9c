import RemoteCall.Proofs.Ndr.Rereading
import RemoteCall.Proofs.Service.Operations

/-! The shares of a host, as a client is told of them. A request for shares comes to the host as one
that is written in the same way, and the answer comes back as it was given (`shares_enumerated`). -/

namespace RemoteCall

open Ndr

namespace ServerService

/-! ## Requests -/

instance : Rereads ShareInfo0 where
  asRead i := ⟨asRead i.name⟩
  Sized i := Sized i.name
  storable_asRead {i} h := (storable_asRead h : Storable (asRead i.name))
  fixed_asRead i := fixedAll_congr (fixed_asRead i.name) rfl

instance : Rereads ShareInfo1 where
  asRead i := ⟨asRead i.name, i.type, asRead i.remark⟩
  Sized i := Sized i.name ∧ Sized i.remark
  storable_asRead h := ⟨storable_asRead h.1, storable_asRead h.2⟩
  fixed_asRead i := fixedAll_congr (fixed_asRead i.name)
    (fixedAll_congr rfl (fixedAll_congr (fixed_asRead i.remark) rfl))

instance {α : Type} [Marshal α] [LawfulMarshal α] [Rereads α] : Rereads (Container α) where
  asRead c := ⟨c.entriesRead, asRead c.buffer⟩
  Sized c := Sized c.buffer
  storable_asRead {c} h := (storable_asRead h : Storable (asRead c.buffer))
  fixed_asRead c := fixedAll_congr rfl (fixedAll_congr (fixed_asRead c.buffer) rfl)

/-- What is read at a level without data. -/
def ShareListing.absent (level : UInt32) : ShareListing :=
  if level = 0 then level0 none else if level = 1 then level1 none else unknown level

theorem ShareListing.absent_cases (level : UInt32) :
    (level = 0 ∧ absent level = .level0 none) ∨ (level = 1 ∧ absent level = .level1 none) ∨
      (level ≠ 0 ∧ level ≠ 1) ∧ absent level = .unknown level := by
  unfold absent
  split
  · exact .inl ⟨‹_›, rfl⟩
  · split
    · exact .inr (.inl ⟨‹_›, rfl⟩)
    · exact .inr (.inr ⟨⟨‹_›, ‹_›⟩, rfl⟩)

instance : Rereads ShareListing where
  asRead
    | .level0 info => .level0 (asRead info)
    | .level1 info => .level1 (asRead info)
    | .unknown level => .absent level
  Sized
    | .level0 info => Sized info
    | .level1 info => Sized info
    | .unknown _ => True
  storable_asRead {i} h := by
    cases i with
    | level0 info => exact (storable_asRead h : Storable (asRead info))
    | level1 info => exact (storable_asRead h : Storable (asRead info))
    | unknown level =>
      dsimp only
      obtain ⟨-, habsent⟩ | ⟨-, habsent⟩ | ⟨hother, habsent⟩ := ShareListing.absent_cases level
      · exact habsent ▸ storable_none (α := Container ShareInfo0)
      · exact habsent ▸ storable_none (α := Container ShareInfo1)
      · exact habsent ▸ hother
  fixed_asRead i := by
    cases i with
    | level0 info => exact fixed_choice_congr true 0 (fixed_asRead info)
    | level1 info => exact fixed_choice_congr true 1 (fixed_asRead info)
    | unknown level =>
      dsimp only
      obtain ⟨rfl, habsent⟩ | ⟨rfl, habsent⟩ | ⟨-, habsent⟩ := ShareListing.absent_cases level <;>
        rw [habsent] <;> rfl

theorem level_asRead (i : ShareListing) : (asRead i).level = i.level := by
  cases i with
  | level0 | level1 => rfl
  | unknown level =>
    change (ShareListing.absent level).level = level
    obtain ⟨rfl, habsent⟩ | ⟨rfl, habsent⟩ | ⟨-, habsent⟩ := ShareListing.absent_cases level <;>
      rw [habsent] <;> rfl

namespace ShareEnumRequest

/-- The request that a host reads where this one is written. -/
def asRead (r : ShareEnumRequest) : ShareEnumRequest :=
  { r with serverName := Ndr.asRead r.serverName, info := Ndr.asRead r.info }

theorem encode_asRead (r : ShareEnumRequest) : Message.encode r.asRead = Message.encode r :=
  Message.encode_congr (fixedAll_congr (fixed_optional_asRead r.serverName)
    (fixedAll_congr (fixed_construct_asRead r.info) rfl))

/-- At a level that has a layout, all of it is read. -/
theorem decode_asRead {r : ShareEnumRequest} (hlevel : r.info.level ∈ [0, 1])
    (hname : Sized r.serverName) (hinfo : Sized r.info) :
    (∃ bytes, Message.encode r = .ok bytes ∧
      Message.decode ShareEnumRequest bytes = .ok r.asRead) ∧
    ∀ level, r.asRead.info ≠ .unknown level := by
  have hstorable : Storable r.asRead.info := storable_asRead hinfo
  have hknown : ∀ level, r.asRead.info ≠ .unknown level := by
    intro level hunknown
    have hsame : r.asRead.info.level = r.info.level := level_asRead r.info
    rw [hunknown] at hstorable hsame
    obtain ⟨h0, h1⟩ : level ≠ 0 ∧ level ≠ 1 := hstorable
    rw [← hsame] at hlevel
    simp [ShareListing.level, h0, h1] at hlevel
  obtain ⟨bytes, hencode, hdecode, -⟩ : Message.RoundTrips r.asRead :=
    ShareEnumRequest.roundTrips (storable_asRead hname) hstorable hknown
  rw [encode_asRead] at hencode
  exact ⟨⟨bytes, hencode, hdecode⟩, hknown⟩

end ShareEnumRequest

/-! ## Answers -/

def ShareInfo0.Shows (e : ShareInfo0) (s : Share) : Prop := e.name = some (.ofString s.name)

structure ShareInfo1.Shows (e : ShareInfo1) (s : Share) : Prop where
  name : e.name = some (.ofString s.name)
  type : e.type = s.typeBits
  remark : e.remark = some (.ofString s.comment)

/-- The entries and their number, with an entry for each of the shares in order. -/
structure Container.Lists {α : Type} (Shows : α → Share → Prop) (shares : List Share)
    (c : Container α) : Prop where
  buffer : ∃ es, c.buffer = some es ∧ List.Forall₂ Shows es shares
  count : c.entriesRead.toNat = shares.length

inductive ShareListing.Lists (shares : List Share) : ShareListing → Prop
  | level0 {c : Container ShareInfo0} (h : c.Lists ShareInfo0.Shows shares) :
      Lists shares (.level0 (some c))
  | level1 {c : Container ShareInfo1} (h : c.Lists ShareInfo1.Shows shares) :
      Lists shares (.level1 (some c))

/-- The answer to a request for shares: those from the one on that the request resumes at. -/
structure Enumerates (shares : List Share) (r : ShareEnumRequest) (a : ShareEnumResponse) :
    Prop where
  level : a.info.level = r.info.level
  entries : a.info.Lists (shares.drop (r.resume.getD 0).toNat)
  total : a.totalEntries.toNat = shares.length
  resume : a.resume = r.resume.map fun _ => 0
  status : a.status = Status.success.code

theorem Container.lists_ofEntries {α : Type} {Shows : α → Share → Prop} {ofShare : Share → α}
    {shares : List Share} (hlength : shares.length < 2 ^ 32)
    (h : ∀ s ∈ shares, Shows (ofShare s) s) :
    (Container.ofEntries (shares.map ofShare)).Lists Shows shares := by
  refine ⟨⟨_, rfl, ?_⟩, ?_⟩
  · rw [List.forall₂_map_left_iff, List.forall₂_same]
    exact h
  · change (countOf (shares.map ofShare).length).toNat = _
    rw [List.length_map, toNat_countOf hlength]

theorem enumerates_shareEnum {shares : List Share} (hlength : shares.length < 2 ^ 32)
    {r : ShareEnumRequest} (hlevel : ∀ level, r.info ≠ .unknown level) :
    Enumerates shares r (shareEnum shares r) := by
  have hdrop : (shares.drop (r.resume.getD 0).toNat).length < 2 ^ 32 := by
    rw [List.length_drop]
    omega
  obtain ⟨serverName, info, preferredLength, resume⟩ := r
  cases info with
  | level0 info =>
    exact ⟨rfl, .level0 (Container.lists_ofEntries hdrop fun _ _ => rfl), toNat_countOf hlength,
      rfl, rfl⟩
  | level1 info =>
    exact ⟨rfl, .level1 (Container.lists_ofEntries hdrop fun _ _ => ⟨rfl, rfl, rfl⟩),
      toNat_countOf hlength, rfl, rfl⟩
  | unknown level => exact absurd rfl (hlevel level)

end ServerService

/-! ## Published shares -/

/-- The shares in order, without those that are named like the share that every host carries. -/
inductive Share.WithoutIpc : List Share → List Share → Prop
  | nil : WithoutIpc [] []
  | drop {s : Share} {shares kept : List Share} (hname : s.name.toLower = "ipc$")
      (h : WithoutIpc shares kept) : WithoutIpc (s :: shares) kept
  | keep {s : Share} {shares kept : List Share} (hname : s.name.toLower ≠ "ipc$")
      (h : WithoutIpc shares kept) : WithoutIpc (s :: shares) (s :: kept)

theorem toLower_eq_iff {a b : String} :
    a.toLower = b ↔ a.toList.map Char.toLower = b.toList := by
  change a.map Char.toLower = b ↔ _
  rw [← String.toList_inj, String.toList_map]

theorem Share.toLower_ipc : ipc.name.toLower = "ipc$" := toLower_eq_iff.mpr (by decide)

theorem Share.withoutIpc_filter (shares : List Share) :
    WithoutIpc shares (shares.filter fun s => !sameIgnoringCase s.name ipc.name) := by
  induction shares with
  | nil => exact .nil
  | cons s shares ih =>
    by_cases hname : s.name.toLower = "ipc$"
    · rw [List.filter_cons_of_neg]
      · exact .drop hname ih
      · simp [sameIgnoringCase, toLower_ipc, hname]
    · rw [List.filter_cons_of_pos]
      · exact .keep hname ih
      · simp [sameIgnoringCase, toLower_ipc, hname]

open ServerService in
/-- **The shares of a host are enumerated as they are published.** First comes the share that every
host carries, then all others but those with its name. A request at a level that has a layout,
whatever else is in it, is answered with the shares from the one on that it resumes at, in order: the
name of each, and at level 1 its type and its comment. They come with their number and with that of
all shares, and there is nothing left to resume. Past the last share there are no entries, which is
a success as well. -/
theorem shares_enumerated (host : HostIdentity) {shares : List Share}
    (hshares : ∀ s ∈ shares, s.IsTellable) (hlength : (Share.published shares).length < 2 ^ 32)
    {r : ShareEnumRequest} (hlevel : r.info.level ∈ [0, 1]) (hname : Sized r.serverName)
    (hinfo : Sized r.info) :
    ∃ kept request response a, Share.WithoutIpc shares kept ∧ Message.encode r = .ok request ∧
      (ServerService.service host shares).dispatch shareEnumOpnum request = .ok response ∧
      Message.decode ShareEnumResponse response = .ok a ∧
      Enumerates (⟨"IPC$", .ipc, true, "Remote IPC", ""⟩ :: kept) r a ∧
      (kept.length < (r.resume.getD 0).toNat → a.info.Lists []) := by
  obtain ⟨⟨request, hencode, hdecode⟩, hknown⟩ :=
    ShareEnumRequest.decode_asRead hlevel hname hinfo
  obtain ⟨⟨response, hresponse, hanswer, -⟩, -⟩ :=
    shareEnum_tells hlength (Share.published_tellable hshares)
      fun level hunknown => absurd hunknown (hknown level)
  have henumerates := enumerates_shareEnum hlength hknown
  refine ⟨_, request, response, _, Share.withoutIpc_filter shares, hencode,
    handler_of_decode hdecode hresponse, hanswer, ?_, fun hpast => ?_⟩
  · exact { henumerates with level := henumerates.level.trans (level_asRead r.info) }
  · have hentries := henumerates.entries
    rwa [List.drop_eq_nil_of_le] at hentries
    exact hpast

namespace ServerService

/-- A request for all shares but the first, from a client that counts the null of its name. -/
def sampleResumed : ShareEnumRequest := ⟨some (.counted "files\x00"), .ask 1, 0, some 1⟩

theorem shares_enumerated_sampleResumed :
    ∃ kept request response a, Share.WithoutIpc sampleShares kept ∧
      Message.encode sampleResumed = .ok request ∧
      (service {} sampleShares).dispatch shareEnumOpnum request = .ok response ∧
      Message.decode ShareEnumResponse response = .ok a ∧ a.info.level = 1 ∧ a.info.Lists kept ∧
      a.totalEntries.toNat = kept.length + 1 ∧ a.resume = some 0 ∧
      a.status = Status.success.code := by
  have hshares : ∀ s ∈ sampleShares, s.IsTellable := by decide
  have hlength : (Share.published sampleShares).length < 2 ^ 32 :=
    Nat.lt_of_le_of_lt (Share.length_published_le sampleShares) (by decide)
  have hname : Sized sampleResumed.serverName := by
    rintro _ ⟨⟩
    exact (by decide : (Text.counted "files\x00").units.length < 2 ^ 32)
  have hinfo : Sized sampleResumed.info := by
    rintro _ ⟨⟩ _ hbuffer
    cases hbuffer
  obtain ⟨kept, request, response, a, hkept, hrequest, hresponse, ha, henumerates, -⟩ :=
    shares_enumerated {} hshares hlength (by decide) hname hinfo
  exact ⟨kept, request, response, a, hkept, hrequest, hresponse, ha, henumerates.level,
    henumerates.entries, henumerates.total, henumerates.resume, henumerates.status⟩

end ServerService

end RemoteCall
