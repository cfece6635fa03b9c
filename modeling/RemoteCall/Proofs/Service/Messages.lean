import RemoteCall.Proofs.Ndr.Messages
import RemoteCall.Service.Server.Message
import RemoteCall.Service.Workstation.Message

/-! The messages of the server service and of the workstation service are read back as they were
written (`messages_roundTrip`), but for a request for shares of an unknown level, which is not read to
its end. -/

namespace RemoteCall

open Ndr

/-! ## Structures -/

namespace ServerService

instance : LawfulMarshal ShareInfo0 where
  Storable i := Storable i.name
  fits h := .record (.cons (LawfulMarshal.fits h) .nil)
  ofValue?_toValue {i} h := by
    change (ofValue? (toValue i.name) >>= fun name => pure (ShareInfo0.mk name)) = some i
    rw [ofValue?_toValue h]
    rfl

instance : LawfulMarshal ShareInfo1 where
  Storable i := Storable i.name ∧ Storable i.remark
  fits {i} h := .record (.cons (LawfulMarshal.fits h.1) (.cons (.u32 i.type)
    (.cons (LawfulMarshal.fits h.2) .nil)))
  ofValue?_toValue {i} h := by
    change (ofValue? (toValue i.name) >>= fun name => ofValue? (toValue i.remark) >>= fun remark =>
      pure (ShareInfo1.mk name i.type remark)) = some i
    rw [ofValue?_toValue h.1, ofValue?_toValue h.2]
    rfl

instance {α : Type} [Marshal α] [LawfulMarshal α] : LawfulMarshal (Container α) where
  Storable c := Storable c.buffer
  fits {c} h := .record (.cons (.u32 c.entriesRead) (.cons (LawfulMarshal.fits h) .nil))
  ofValue?_toValue {c} h := by
    change (ofValue? (toValue c.buffer) >>= fun buffer =>
      pure (Container.mk c.entriesRead buffer)) = some c
    rw [ofValue?_toValue h]
    rfl

instance : LawfulMarshal ServerInfo100 where
  Storable i := Storable i.name
  fits {i} h := .record (.cons (.u32 i.platform) (.cons (LawfulMarshal.fits h) .nil))
  ofValue?_toValue {i} h := by
    change (ofValue? (toValue i.name) >>= fun name =>
      pure (ServerInfo100.mk i.platform name)) = some i
    rw [ofValue?_toValue h]
    rfl

instance : LawfulMarshal ServerInfo101 where
  Storable i := Storable i.name ∧ Storable i.comment
  fits {i} h := .record (.cons (.u32 i.platform) (.cons (LawfulMarshal.fits h.1) (.cons (.u32 i.major)
    (.cons (.u32 i.minor) (.cons (.u32 i.type) (.cons (LawfulMarshal.fits h.2) .nil))))))
  ofValue?_toValue {i} h := by
    change (ofValue? (toValue i.name) >>= fun name => ofValue? (toValue i.comment) >>= fun comment =>
      pure (ServerInfo101.mk i.platform name i.major i.minor i.type comment)) = some i
    rw [ofValue?_toValue h.1, ofValue?_toValue h.2]
    rfl

end ServerService

namespace WorkstationService

instance : LawfulMarshal WorkstationInfo100 where
  Storable i := Storable i.computerName ∧ Storable i.lanGroup
  fits {i} h := .record (.cons (.u32 i.platform) (.cons (LawfulMarshal.fits h.1)
    (.cons (LawfulMarshal.fits h.2) (.cons (.u32 i.major) (.cons (.u32 i.minor) .nil)))))
  ofValue?_toValue {i} h := by
    change (ofValue? (toValue i.computerName) >>= fun computerName =>
      ofValue? (toValue i.lanGroup) >>= fun lanGroup =>
      pure (WorkstationInfo100.mk i.platform computerName lanGroup i.major i.minor)) = some i
    rw [ofValue?_toValue h.1, ofValue?_toValue h.2]
    rfl

instance : LawfulMarshal WorkstationInfo101 where
  Storable i := Storable i.computerName ∧ Storable i.lanGroup ∧ Storable i.lanRoot
  fits {i} h := .record (.cons (.u32 i.platform) (.cons (LawfulMarshal.fits h.1)
    (.cons (LawfulMarshal.fits h.2.1) (.cons (.u32 i.major) (.cons (.u32 i.minor)
    (.cons (LawfulMarshal.fits h.2.2) .nil))))))
  ofValue?_toValue {i} h := by
    change (ofValue? (toValue i.computerName) >>= fun computerName =>
      ofValue? (toValue i.lanGroup) >>= fun lanGroup =>
      ofValue? (toValue i.lanRoot) >>= fun lanRoot =>
      pure (WorkstationInfo101.mk i.platform computerName lanGroup i.major i.minor lanRoot)) = some i
    rw [ofValue?_toValue h.1, ofValue?_toValue h.2.1, ofValue?_toValue h.2.2]
    rfl

end WorkstationService

/-! ## Levels

Data without a known layout is not of a level that has one. -/

section Levels

variable {α β γ : Type} [Marshal α] [Marshal β] {m n level : UInt32}
  {first : Option α → γ} {second : Option β → γ} {other : UInt32 → γ}

/-- What is told at one of two levels, or without a layout at any other one. -/
def ofLevel (m n : UInt32) (first : Option α → γ) (second : Option β → γ) (other : UInt32 → γ)
    (level : UInt32) (arm : Value) : Option γ :=
  if level = m then return first (← ofValue? arm)
  else if level = n then return second (← ofValue? arm)
  else some (other level)

theorem ofLevel_first [LawfulMarshal α] {info : Option α} (h : Storable info) :
    ofLevel m n first second other m (toValue info) = some (first info) := by
  simp [ofLevel, ofValue?_toValue h]

theorem ofLevel_second [LawfulMarshal β] (hne : n ≠ m) {info : Option β} (h : Storable info) :
    ofLevel m n first second other n (toValue info) = some (second info) := by
  simp [ofLevel, hne, ofValue?_toValue h]

theorem ofLevel_other (h : level ≠ m ∧ level ≠ n) (arm : Value) :
    ofLevel m n first second other level arm = some (other level) := by
  simp [ofLevel, h]

end Levels

namespace ServerService

instance : LawfulMarshal ShareListing where
  Storable
    | .level0 info => Storable info
    | .level1 info => Storable info
    | .unknown level => level ≠ 0 ∧ level ≠ 1
  fits {i} h := by
    cases i with
    | level0 info => exact fits_choice rfl h
    | level1 info => exact fits_choice rfl h
    | unknown level => exact .choiceNull true _ level
  ofValue?_toValue {i} h := by
    cases i with
    | level0 info => exact ofLevel_first h
    | level1 info => exact ofLevel_second (by decide) h
    | unknown level => exact ofLevel_other h _

instance : LawfulMarshal ShareInfo where
  Storable
    | .level0 info => Storable info
    | .level1 info => Storable info
    | .unknown level => level ≠ 0 ∧ level ≠ 1
  fits {i} h := by
    cases i with
    | level0 info => exact fits_choice rfl h
    | level1 info => exact fits_choice rfl h
    | unknown level => exact .choiceNull false _ level
  ofValue?_toValue {i} h := by
    cases i with
    | level0 info => exact ofLevel_first h
    | level1 info => exact ofLevel_second (by decide) h
    | unknown level => exact ofLevel_other h _

instance : LawfulMarshal ServerInfo where
  Storable
    | .level100 info => Storable info
    | .level101 info => Storable info
    | .unknown level => level ≠ 100 ∧ level ≠ 101
  fits {i} h := by
    cases i with
    | level100 info => exact fits_choice rfl h
    | level101 info => exact fits_choice rfl h
    | unknown level => exact .choiceNull false _ level
  ofValue?_toValue {i} h := by
    cases i with
    | level100 info => exact ofLevel_first h
    | level101 info => exact ofLevel_second (by decide) h
    | unknown level => exact ofLevel_other h _

end ServerService

instance : LawfulMarshal WorkstationService.WorkstationInfo where
  Storable
    | .level100 info => Storable info
    | .level101 info => Storable info
    | .unknown level => level ≠ 100 ∧ level ≠ 101
  fits {i} h := by
    cases i with
    | level100 info => exact fits_choice rfl h
    | level101 info => exact fits_choice rfl h
    | unknown level => exact .choiceNull false _ level
  ofValue?_toValue {i} h := by
    cases i with
    | level100 info => exact ofLevel_first h
    | level101 info => exact ofLevel_second (by decide) h
    | unknown level => exact ofLevel_other h _

/-! ## Messages -/

namespace ServerService

/-- A resume handle is a number. -/
theorem storable_resume (resume : Option UInt32) : Storable resume := fun _ _ => trivial

/-- At a level that has a layout, all parameters are read. -/
theorem ShareEnumRequest.roundTrips {r : ShareEnumRequest} (hname : Storable r.serverName)
    (hinfo : Storable r.info) (hlevel : ∀ level, r.info ≠ .unknown level) :
    Message.RoundTrips r := by
  obtain ⟨serverName, info, preferredLength, resume⟩ := r
  have hrest : Passes (Value.fixedAll [.u32 preferredLength, optional resume])
      (readU32 >>= fun preferredLength => readOptional UInt32 >>= fun resume =>
        pure (ShareEnumRequest.mk serverName info preferredLength resume))
      (ShareEnumRequest.mk serverName info preferredLength resume) :=
    (passes_u32 _).append ((passes_readOptional (storable_resume resume)).append (passes_nil _))
  refine Message.roundTrips_of_passes ((passes_readOptional hname).append
    ((passes_readAs hinfo).append ?_))
  cases info with
  | level0 => exact hrest
  | level1 => exact hrest
  | unknown level => exact absurd rfl (hlevel level)

/-- At any other level, what follows the level is left. -/
theorem ShareEnumRequest.decode_of_unknown {r : ShareEnumRequest} {level : UInt32}
    (hname : Storable r.serverName) (hinfo : Storable r.info) (hlevel : r.info = .unknown level) :
    ∃ bytes, Message.encode r = .ok bytes ∧
      Message.decode ShareEnumRequest bytes = .ok ⟨r.serverName, .unknown level, 0, none⟩ := by
  obtain ⟨serverName, info, preferredLength, resume⟩ := r
  obtain rfl : info = .unknown level := hlevel
  have hrest : Passes (Value.fixedAll [.u32 preferredLength, optional resume])
      (readU32 >>= fun _ => readOptional UInt32 >>= fun _ => pure ()) () :=
    (passes_u32 _).append ((passes_readOptional (storable_resume resume)).append (passes_nil _))
  exact Message.decode_of_starts ((passes_readOptional hname).append_starts
    ((passes_readAs hinfo).append_starts (hrest.starts _)))

theorem ShareEnumResponse.roundTrips {r : ShareEnumResponse} (hinfo : Storable r.info) :
    Message.RoundTrips r :=
  Message.roundTrips_of_passes ((passes_readAs hinfo).append ((passes_u32 _).append
    ((passes_readOptional (storable_resume r.resume)).append ((passes_u32 _).append
      (passes_nil _)))))

theorem ShareInfoRequest.roundTrips {r : ShareInfoRequest} (hname : Storable r.serverName)
    (hshare : Storable r.shareName) : Message.RoundTrips r :=
  Message.roundTrips_of_passes ((passes_readOptional hname).append ((passes_readAs hshare).append
    ((passes_u32 _).append (passes_nil _))))

theorem ShareInfoResponse.roundTrips {r : ShareInfoResponse} (hinfo : Storable r.info) :
    Message.RoundTrips r :=
  Message.roundTrips_of_passes ((passes_readAs hinfo).append ((passes_u32 _).append
    (passes_nil _)))

theorem ServerInfoRequest.roundTrips {r : ServerInfoRequest} (hname : Storable r.serverName) :
    Message.RoundTrips r :=
  Message.roundTrips_of_passes ((passes_readOptional hname).append ((passes_u32 _).append
    (passes_nil _)))

theorem ServerInfoResponse.roundTrips {r : ServerInfoResponse} (hinfo : Storable r.info) :
    Message.RoundTrips r :=
  Message.roundTrips_of_passes ((passes_readAs hinfo).append ((passes_u32 _).append
    (passes_nil _)))

end ServerService

namespace WorkstationService

theorem InfoRequest.roundTrips {r : InfoRequest} (hname : Storable r.serverName) :
    Message.RoundTrips r :=
  Message.roundTrips_of_passes ((passes_readOptional hname).append ((passes_u32 _).append
    (passes_nil _)))

theorem InfoResponse.roundTrips {r : InfoResponse} (hinfo : Storable r.info) :
    Message.RoundTrips r :=
  Message.roundTrips_of_passes ((passes_readAs hinfo).append ((passes_u32 _).append
    (passes_nil _)))

end WorkstationService

open ServerService in
/-- **Messages are read back as they were written**, whatever is in them, as long as their strings
and arrays can be stored and data without a layout is of another level. A request for shares of a
level without a layout comes back with the name and the level alone. -/
theorem messages_roundTrip :
    (∀ r : ShareEnumRequest, Storable r.serverName → Storable r.info → match r.info with
      | .unknown level => ∃ bytes, Message.encode r = .ok bytes ∧
          Message.decode ShareEnumRequest bytes = .ok ⟨r.serverName, .unknown level, 0, none⟩
      | _ => Message.RoundTrips r) ∧
    (∀ r : ShareEnumResponse, Storable r.info → Message.RoundTrips r) ∧
    (∀ r : ShareInfoRequest, Storable r.serverName → Storable r.shareName →
      Message.RoundTrips r) ∧
    (∀ r : ShareInfoResponse, Storable r.info → Message.RoundTrips r) ∧
    (∀ r : ServerInfoRequest, Storable r.serverName → Message.RoundTrips r) ∧
    (∀ r : ServerInfoResponse, Storable r.info → Message.RoundTrips r) ∧
    (∀ r : WorkstationService.InfoRequest, Storable r.serverName → Message.RoundTrips r) ∧
    ∀ r : WorkstationService.InfoResponse, Storable r.info → Message.RoundTrips r := by
  refine ⟨fun r hname hinfo => ?_, fun _ => ShareEnumResponse.roundTrips,
    fun _ => ShareInfoRequest.roundTrips, fun _ => ShareInfoResponse.roundTrips,
    fun _ => ServerInfoRequest.roundTrips, fun _ => ServerInfoResponse.roundTrips,
    fun _ => WorkstationService.InfoRequest.roundTrips,
    fun _ => WorkstationService.InfoResponse.roundTrips⟩
  split
  · rename_i level hlevel
    exact ShareEnumRequest.decode_of_unknown hname hinfo hlevel
  · rename_i hlevel
    exact ShareEnumRequest.roundTrips hname hinfo hlevel

namespace ServerService

def sampleName : Text := .ofString "files"

/-- Two shares, one of them without a remark. -/
def sampleListing : ShareListing :=
  .level1 (some (.ofEntries
    [⟨some (.ofString "data"), 0, some (.counted "x")⟩, ⟨some (.ofString "IPC$"), 3, none⟩]))

theorem storable_sampleName : Storable sampleName := ⟨by decide, nofun⟩

theorem storable_sampleListing : Storable sampleListing := by
  have hdata : Storable (Text.ofString "data") := ⟨by decide, nofun⟩
  have hremark : Storable (Text.counted "x") := ⟨by decide, fun _ => by decide⟩
  have hpipe : Storable (Text.ofString "IPC$") := ⟨by decide, nofun⟩
  rintro _ ⟨⟩ _ ⟨⟩
  refine ⟨by decide, List.forall_mem_cons.mpr ⟨⟨?_, ?_⟩, List.forall_mem_singleton.mpr ⟨?_, ?_⟩⟩⟩
  · rintro _ ⟨⟩
    exact hdata
  · rintro _ ⟨⟩
    exact hremark
  · rintro _ ⟨⟩
    exact hpipe
  · exact nofun

end ServerService

open ServerService in
theorem messages_roundTrip_samples :
    Storable (some sampleName) ∧ Storable sampleListing ∧ Storable (ShareListing.unknown 7) ∧
    (∃ bytes, Message.encode (ShareEnumRequest.mk (some sampleName) (.unknown 7) 16 (some 4))
        = .ok bytes ∧
      Message.decode ShareEnumRequest bytes = .ok ⟨some sampleName, .unknown 7, 0, none⟩) ∧
    Message.RoundTrips (ShareEnumRequest.mk (some sampleName) sampleListing 16 (some 4)) ∧
    Message.RoundTrips (ShareEnumResponse.mk sampleListing 2 none 0) ∧
    Message.RoundTrips (ShareInfoRequest.mk none sampleName 1) ∧
    Message.RoundTrips (ShareInfoResponse.mk (.level0 (some ⟨some sampleName⟩)) 0) ∧
    Message.RoundTrips (ServerInfoRequest.mk (some sampleName) 101) ∧
    Message.RoundTrips (ServerInfoResponse.mk (.level100 (some ⟨500, some sampleName⟩)) 0) ∧
    Message.RoundTrips (WorkstationService.InfoRequest.mk (some sampleName) 100) ∧
    Message.RoundTrips (WorkstationService.InfoResponse.mk
      (.level100 (some ⟨500, some sampleName, none, 6, 1⟩)) 0) := by
  have hname : Storable (some sampleName) := by
    rintro _ ⟨⟩
    exact storable_sampleName
  have hnone : Storable (none : Option Text) := nofun
  have hunknown : Storable (ShareListing.unknown 7) := by
    constructor <;> decide
  have hshare : Storable (ShareInfo.level0 (some ⟨some sampleName⟩)) := by
    rintro _ ⟨⟩
    exact hname
  have hserver : Storable (ServerInfo.level100 (some ⟨500, some sampleName⟩)) := by
    rintro _ ⟨⟩
    exact hname
  have hworkstation : Storable (WorkstationService.WorkstationInfo.level100
      (some ⟨500, some sampleName, none, 6, 1⟩)) := by
    rintro _ ⟨⟩
    exact ⟨hname, hnone⟩
  obtain ⟨henum, henum', hinfo, hinfo', hhost, hhost', hstation, hstation'⟩ := messages_roundTrip
  exact ⟨hname, storable_sampleListing, hunknown,
    henum ⟨some sampleName, .unknown 7, 16, some 4⟩ hname hunknown,
    henum ⟨some sampleName, sampleListing, 16, some 4⟩ hname storable_sampleListing,
    henum' _ storable_sampleListing, hinfo _ hnone storable_sampleName, hinfo' _ hshare,
    hhost _ hname, hhost' _ hserver, hstation _ hname, hstation' _ hworkstation⟩

end RemoteCall
