import RemoteCall.Proofs.Service.Enumeration

/-! One share of a host, asked for by its name. The answer tells what a listing of all shares at the
same level tells about the first one with that name (`lookup_agrees`). -/

namespace RemoteCall

open Ndr

namespace ServerService

/-! ## Requests -/

namespace ShareInfoRequest

/-- The request that a host reads where this one is written. -/
def asRead (r : ShareInfoRequest) : ShareInfoRequest :=
  { r with serverName := Ndr.asRead r.serverName, shareName := Ndr.asRead r.shareName }

theorem encode_asRead (r : ShareInfoRequest) : Message.encode r.asRead = Message.encode r :=
  Message.encode_congr (fixedAll_congr (fixed_optional_asRead r.serverName)
    (fixedAll_congr (fixed_construct_asRead r.shareName) rfl))

theorem decode_asRead {r : ShareInfoRequest} (hserver : Sized r.serverName)
    (hshare : Sized r.shareName) : ∃ bytes, Message.encode r = .ok bytes ∧
      Message.decode ShareInfoRequest bytes = .ok r.asRead := by
  obtain ⟨bytes, hencode, hdecode, -⟩ : Message.RoundTrips r.asRead :=
    ShareInfoRequest.roundTrips (storable_asRead hserver) (storable_asRead hshare)
  rw [encode_asRead] at hencode
  exact ⟨bytes, hencode, hdecode⟩

end ShareInfoRequest

/-! ## Names in a listing -/

/-- An entry has this name, in any case. -/
def IsNamed (name : String) (entry : Option Text) : Prop :=
  ∃ t ∈ entry, t.value.toLower = name.toLower

/-- The first entry with this name. -/
def Container.FirstNamed {α : Type} (nameOf : α → Option Text) (name : String) (c : Container α)
    (e : α) : Prop :=
  ∃ before after, c.buffer = some (before ++ e :: after) ∧ IsNamed name (nameOf e) ∧
    ∀ b ∈ before, ¬IsNamed name (nameOf b)

/-- What is told about a share is the first entry with its name. -/
inductive ShareListing.FirstNamed (name : String) : ShareListing → ShareInfo → Prop
  | level0 {c : Container ShareInfo0} {e : ShareInfo0} (h : c.FirstNamed ShareInfo0.name name e) :
    FirstNamed name (.level0 (some c)) (.level0 (some e))
  | level1 {c : Container ShareInfo1} {e : ShareInfo1} (h : c.FirstNamed ShareInfo1.name name e) :
    FirstNamed name (.level1 (some c)) (.level1 (some e))

/-- What is told is about this share. -/
inductive ShareInfo.Shows (s : Share) : ShareInfo → Prop
  | level0 {e : ShareInfo0} (h : e.Shows s) : Shows s (.level0 (some e))
  | level1 {e : ShareInfo1} (h : e.Shows s) : Shows s (.level1 (some e))

/-- The answer to a request for the share of this name agrees with a listing: it is a success if
and only if the name is listed, and then it has the first entry of that name. Otherwise it says that
there is no such share, and nothing else. -/
structure ShareListing.Agrees (l : ShareListing) (name : String) (a : ShareInfoResponse) :
    Prop where
  success : a.status = Status.success.code ↔ ∃ n ∈ l.names, n.toLower = name.toLower
  entry : a.status = Status.success.code → l.FirstNamed name a.info
  missing : a.status ≠ Status.success.code → a = ⟨.absent l.level, Status.netNameNotFound.code⟩

section Entries

variable {α : Type} {shares : List Share} {name : String}

theorem isNamed_ofString {s : String} : IsNamed name (some (.ofString s)) ↔
    sameIgnoringCase s name = true := by
  simp [IsNamed, sameIgnoringCase, Text.ofString]

theorem firstNamed_ofEntries (ofShare : Share → α) (nameOf : α → Option Text)
    (hname : ∀ s, nameOf (ofShare s) = some (.ofString s.name)) {s : Share}
    (h : Share.find? shares name = some s) :
    (Container.ofEntries (shares.map ofShare)).FirstNamed nameOf name (ofShare s) := by
  obtain ⟨hs, before, after, rfl, hbefore⟩ := List.find?_eq_some_iff_append.mp h
  refine ⟨before.map ofShare, after.map ofShare, ?_, ?_, ?_⟩
  · simp [Container.ofEntries]
  · rw [hname, isNamed_ofString]
    exact hs
  · rintro _ hmem
    obtain ⟨b, hb, rfl⟩ := List.mem_map.mp hmem
    rw [hname, isNamed_ofString]
    simpa using hbefore b hb

theorem exists_name_iff (shares : List Share) (name : String) :
    (∃ n ∈ shares.map (·.name), n.toLower = name.toLower) ↔
      (Share.find? shares name).isSome = true := by
  rw [find?_isSome_iff]
  simp [sameIgnoringCase]

end Entries

/-! ## Answers -/

section Answers

variable {shares : List Share} {r : ShareInfoRequest} {q : ShareEnumRequest} {name : String}

theorem level_cases {level : UInt32} (h : ¬level > 1) : level = 0 ∨ level = 1 := by
  simp only [UInt32.lt_iff_toNat_lt, ← UInt32.toNat_inj] at h ⊢
  change ¬1 < level.toNat at h
  change level.toNat = 0 ∨ level.toNat = 1
  omega

theorem shareInfo_of_unknown (hlevel : r.level > 1) :
    shareInfo shares r = ⟨.unknown r.level, Status.invalidLevel.code⟩ := by
  unfold shareInfo
  rw [if_pos hlevel]

theorem shareInfo_of_none (hlevel : ¬r.level > 1)
    (hfind : Share.find? shares r.shareName.value = none) :
    shareInfo shares r = ⟨.absent r.level, Status.netNameNotFound.code⟩ := by
  unfold shareInfo
  rw [if_neg hlevel, hfind]

/-- What is told about a share at a level that has a layout. -/
def ShareInfo.ofShare (level : UInt32) (s : Share) : ShareInfo :=
  if level = 0 then .level0 (some (.ofShare s)) else .level1 (some (.ofShare s))

theorem shareInfo_of_some (hlevel : ¬r.level > 1) {s : Share}
    (hfind : Share.find? shares r.shareName.value = some s) :
    shareInfo shares r = ⟨.ofShare r.level s, Status.success.code⟩ := by
  unfold shareInfo
  rw [if_neg hlevel, hfind]
  rfl

theorem ShareInfo.shows_ofShare (level : UInt32) (s : Share) : (ofShare level s).Shows s := by
  unfold ofShare
  split
  · exact .level0 rfl
  · exact .level1 ⟨rfl, rfl, rfl⟩

theorem ShareInfo.level_ofShare {level : UInt32} (hlevel : ¬level > 1) (s : Share) :
    (ofShare level s).level = level := by
  rcases level_cases hlevel with rfl | rfl <;> rfl

/-- A listing of all these shares. -/
structure ShareListing.IsOf (l : ShareListing) (shares : List Share) : Prop where
  names : l.names = shares.map (·.name)
  first : ∀ {name s}, Share.find? shares name = some s → l.FirstNamed name (.ofShare l.level s)

theorem isOf_shareEnum (shares : List Share) (hknown : ∀ level, q.info ≠ .unknown level)
    (hall : q.resume.getD 0 = 0) :
    (shareEnum shares q).info.level = q.info.level ∧ (shareEnum shares q).info.IsOf shares := by
  have hdrop : shares.drop (q.resume.getD 0).toNat = shares := by
    rw [hall]
    rfl
  unfold shareEnum
  rw [hdrop]
  cases hinfo : q.info with
  | level0 info =>
    refine ⟨rfl, ?_, fun hfind => .level0 ?_⟩
    · simp [ShareListing.names, Container.entries, Container.ofEntries, ShareInfo0.ofShare,
        Text.ofString, Function.comp_def]
    · exact firstNamed_ofEntries ShareInfo0.ofShare ShareInfo0.name (fun _ => rfl) hfind
  | level1 info =>
    refine ⟨rfl, ?_, fun hfind => .level1 ?_⟩
    · simp [ShareListing.names, Container.entries, Container.ofEntries, ShareInfo1.ofShare,
        Text.ofString, Function.comp_def]
    · exact firstNamed_ofEntries ShareInfo1.ofShare ShareInfo1.name (fun _ => rfl) hfind
  | unknown level => exact absurd hinfo (hknown level)

theorem ShareListing.IsOf.agrees {l : ShareListing} (h : l.IsOf shares) (hlevel : l.level = r.level)
    (hknown : ¬r.level > 1) : l.Agrees r.shareName.value (shareInfo shares r) := by
  have hnames := exists_name_iff shares r.shareName.value
  rw [← h.names] at hnames
  cases hfind : Share.find? shares r.shareName.value with
  | none =>
    rw [hfind] at hnames
    have hstatus : Status.netNameNotFound.code ≠ Status.success.code := by decide
    rw [shareInfo_of_none hknown hfind]
    exact ⟨iff_of_false hstatus (mt hnames.mp nofun), fun h => absurd h hstatus,
      fun _ => hlevel ▸ rfl⟩
  | some s =>
    rw [hfind] at hnames
    rw [shareInfo_of_some hknown hfind, ← hlevel]
    exact ⟨iff_of_true rfl (hnames.mpr rfl), fun _ => h.first hfind, fun h => absurd rfl h⟩

/-- The share that every host carries is found in front of all others. -/
theorem find?_published (hname : name.toLower = "ipc$") :
    Share.find? (Share.published shares) name = some Share.ipc := by
  refine List.find?_cons_of_pos ?_
  rw [sameIgnoringCase, beq_iff_eq, hname, Share.toLower_ipc]

end Answers

end ServerService

open ServerService in
/-- **A share that is looked up is told as it is listed.** Whatever shares a host is given and
whatever name is asked for, in whatever case, at a level that has a layout: the lookup is a success
if and only if the name is in the listing of all shares at that level, and then it has the first
entry of that name; otherwise there is no such share. By its name, the share that every host carries
is found, and never another one in its place. At a level without a layout no share is found. -/
theorem lookup_agrees (host : HostIdentity) {shares : List Share}
    (hshares : ∀ s ∈ shares, s.IsTellable) (hlength : (Share.published shares).length < 2 ^ 32)
    {r : ShareInfoRequest} (hserver : Sized r.serverName) (hshare : Sized r.shareName) :
    let name := r.asRead.shareName.value
    ∃ request response a, Message.encode r = .ok request ∧
      (ServerService.service host shares).dispatch shareInfoOpnum request = .ok response ∧
      Message.decode ShareInfoResponse response = .ok a ∧
      (r.level > 1 → a = ⟨.unknown r.level, Status.invalidLevel.code⟩) ∧
      (¬r.level > 1 → name.toLower = "ipc$" → a.status = Status.success.code ∧
        a.info.level = r.level ∧ a.info.Shows ⟨"IPC$", .ipc, true, "Remote IPC", ""⟩) ∧
      ∀ q : ShareEnumRequest, Sized q.serverName → Sized q.info → q.info.level = r.level →
        ¬r.level > 1 → q.resume.getD 0 = 0 → ∃ enumeration listed l,
          Message.encode q = .ok enumeration ∧
          (ServerService.service host shares).dispatch shareEnumOpnum enumeration = .ok listed ∧
          Message.decode ShareEnumResponse listed = .ok l ∧ l.info.level = r.level ∧
          l.info.Agrees name a := by
  intro name
  obtain ⟨request, hencode, hdecode⟩ := ShareInfoRequest.decode_asRead hserver hshare
  have htellable := Share.published_tellable hshares
  obtain ⟨⟨response, hresponse, hanswer, -⟩, -⟩ := shareInfo_tells htellable r.asRead
  refine ⟨request, response, _, hencode, handler_of_decode hdecode hresponse, hanswer,
    shareInfo_of_unknown (r := r.asRead), fun hlevel hname => ?own,
    fun q hserver hinfo hsame hlevel hall => ?listed⟩
  case own =>
    rw [shareInfo_of_some (r := r.asRead) hlevel (find?_published hname)]
    exact ⟨rfl, ShareInfo.level_ofShare hlevel _, ShareInfo.shows_ofShare _ _⟩
  case listed =>
    have hknown : q.info.level ∈ [0, 1] := by
      rw [hsame]
      simpa using level_cases hlevel
    obtain ⟨⟨enumeration, hencode, hdecode⟩, hknown⟩ :=
      ShareEnumRequest.decode_asRead hknown hserver hinfo
    obtain ⟨⟨listed, hlisted, hlisting, -⟩, -⟩ := shareEnum_tells hlength htellable
      fun level hunknown => absurd hunknown (hknown level)
    obtain ⟨hlevel', hall⟩ := isOf_shareEnum (Share.published shares) hknown hall
    have hsame' := (hlevel'.trans (level_asRead q.info)).trans hsame
    exact ⟨enumeration, listed, _, hencode, handler_of_decode hdecode hlisted, hlisting, hsame',
      hall.agrees hsame' hlevel⟩

namespace ServerService

/-- A request for the share that every host carries, at a host that is given another one of that
name. -/
theorem lookup_agrees_sampleShares :
    ∃ request response a enumeration listed l,
      Message.encode (ShareInfoRequest.of "files" "iPC$" 1) = .ok request ∧
      (service {} sampleShares).dispatch shareInfoOpnum request = .ok response ∧
      Message.decode ShareInfoResponse response = .ok a ∧ a.status = Status.success.code ∧
      a.info.Shows ⟨"IPC$", .ipc, true, "Remote IPC", ""⟩ ∧
      Message.encode (ShareEnumRequest.of "files" 1) = .ok enumeration ∧
      (service {} sampleShares).dispatch shareEnumOpnum enumeration = .ok listed ∧
      Message.decode ShareEnumResponse listed = .ok l ∧ l.info.FirstNamed "iPC$" a.info := by
  have hshares : ∀ s ∈ sampleShares, s.IsTellable := by decide
  have hlength : (Share.published sampleShares).length < 2 ^ 32 :=
    Nat.lt_of_le_of_lt (Share.length_published_le sampleShares) (by decide)
  have hserver : Sized (some (Text.ofString "files")) := by
    rintro _ ⟨⟩
    exact (by decide : (Text.ofString "files").units.length < 2 ^ 32)
  have hshare : Sized (Text.ofString "iPC$") :=
    (by decide : (Text.ofString "iPC$").units.length < 2 ^ 32)
  have hinfo : Sized (ShareListing.ask 1) := by
    rintro _ ⟨⟩ _ hbuffer
    cases hbuffer
  have hname : "iPC$".toLower = "ipc$" := toLower_eq_iff.mpr (by decide)
  obtain ⟨request, response, a, hrequest, hresponse, ha, -, hown, hlisting⟩ :=
    lookup_agrees {} hshares hlength (r := .of "files" "iPC$" 1) hserver hshare
  obtain ⟨hstatus, -, hshows⟩ := hown (by decide) hname
  obtain ⟨enumeration, listed, l, henumeration, hlisted, hl, -, hagrees⟩ :=
    hlisting (.of "files" 1) hserver hinfo rfl (by decide) rfl
  exact ⟨request, response, a, enumeration, listed, l, hrequest, hresponse, ha, hstatus, hshows,
    henumeration, hlisted, hl, hagrees.entry hstatus⟩

end ServerService

end RemoteCall
