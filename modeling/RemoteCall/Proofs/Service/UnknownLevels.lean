import RemoteCall.Proofs.Ndr.Words
import RemoteCall.Proofs.Service.Messages

/-! Answers at a level that has no layout (`unknown_levels_read`). What the pointer of such a level
refers to has no known size, so nothing can be read behind it. Answers about a share, a host or a
workstation are read only if the pointer is null. A listing of shares is read whatever the pointer
is, and what it refers to is taken for the parameters that should follow it. -/

namespace RemoteCall

open Ndr

/-! ## Null pointers -/

/-- With these bytes behind its level, the message is read just when they are a null pointer and a
status. -/
structure SkipsNull (β : Type) [Message β] (level : UInt32) (make : UInt32 → β)
    (rest : List UInt8) : Prop where
  ok_iff : ∀ b, Message.decode β (dword level ++ rest) = .ok b ↔
    ∃ status more, rest = dword 0 ++ (dword status ++ more) ∧ b = make status
  referent : ∀ id more, id ≠ 0 → rest = dword id ++ more →
    Message.decode β (dword level ++ rest) = .error (.malformedData 4 (.unknownArm level))
  malformed : ∀ e, Message.decode β (dword level ++ rest) = .error e →
    ∃ offset defect, e = .malformedData offset defect

section Levels

variable {α β : Type} [Marshal α] [Message β] {arms : List (UInt32 × Layout)} {level id : UInt32}
  {a : α}

theorem arm?_eq_none {m n : UInt32} (h : level ≠ m ∧ level ≠ n) (l l' : Layout) :
    Layout.arm? [(m, l), (n, l')] level = none := by
  simp [Layout.arm?, h.1.symm, h.2.symm]

theorem failsOn_readAs (hlayout : Marshal.layout α = .choice false arms)
    (harm : Layout.arm? arms level = none) (hid : id ≠ 0) (rest : List UInt8) :
    FailsOn (readAs α) 0 (dword level ++ (dword id ++ rest))
      (.malformedData 4 (.unknownArm level)) := by
  have hlevel : Gets (readLevel false) 0 (dword level) level := gets_u32_of_aligned rfl level
  have harm' : FailsOn (readArm false arms level) 4 (dword id ++ rest)
      (.malformedData 4 (.unknownArm level)) := by
    rw [readArm_of_unknown harm]
    exact failsOn_dropArm rfl hid level 4 rest
  have hread : FailsOn ((Layout.choice false arms).read .empty) 0
      (dword level ++ (dword id ++ rest)) (.malformedData 4 (.unknownArm level)) := by
    change FailsOn (readChoice false arms) _ _ _
    rw [readChoice_eq]
    exact hlevel.bind_failsOn harm'
  rw [← hlayout] at hread
  exact hread.construct.bind

/-- Each answer that is a choice and a status, and has its level once, skips only a null pointer. -/
theorem skipsNull (make : α → UInt32 → β) (hread : (Message.read : Read β) =
      readAs α >>= fun info => readU32 >>= fun status => pure (make info status))
    (hlayout : Marshal.layout α = .choice false arms) (harm : Layout.arm? arms level = none)
    (ha : ofValue? (.choice false level .null) = some a) (rest : List UInt8) :
    SkipsNull β level (make a) rest := by
  have hwhole : (dword level).length % 4 = 0 := by rw [length_dword]
  have hinfo := TakesWords.readAs hlayout harm ha hwhole fun haligned =>
    gets_u32_of_aligned haligned level
  have htakes := hinfo.bind fun info _ _ =>
    TakesWords.u32.bind fun status _ _ => .pure (make info status)
  rw [← hread] at htakes
  refine ⟨fun b => (htakes.decode_ok_iff rest b).trans ?_, ?_, fun e => htakes.malformed⟩
  · constructor
    · rintro ⟨_, more, hsplit, _, _, _, ⟨id, hid, rfl, rfl⟩,
        ⟨status, _, _, rfl, ⟨rfl, rfl⟩, rfl⟩, rfl⟩
      obtain rfl := hid rfl
      refine ⟨status, more, ?_, rfl⟩
      simpa using hsplit
    · rintro ⟨status, more, rfl, rfl⟩
      refine ⟨dword level ++ (dword 0 ++ dword status), more, by simp, a, _, _,
        ⟨0, fun _ => rfl, rfl, rfl⟩, ⟨status, _, _, rfl, ⟨rfl, rfl⟩, rfl⟩, by simp⟩
  · rintro id more hid rfl
    have hfails := (failsOn_readAs hlayout harm hid more).bind
      (f := fun info => readU32 >>= fun status => pure (make info status))
    rw [← hread] at hfails
    obtain ⟨d, hd⟩ := hfails [] []
    exact Message.decode_of_error hd

end Levels

/-! ## Any pointers -/

namespace ServerService

/-- A listing at a level that has no layout: it has some pointer, whatever it is, and the words
behind it are a total, a resume handle and a status. -/
def IsBareListing (level : UInt32) (bs : List UInt8) (r : ShareEnumResponse) : Prop :=
  ∃ id total resume handle status, IsOptionalWord resume handle ∧
    bs = dword id ++ (dword total ++ (handle ++ dword status)) ∧
    r = ⟨.unknown level, total, resume, status⟩

theorem takesWords_listing (first : UInt32) {level : UInt32} (hlevel : level ≠ 0 ∧ level ≠ 1) :
    TakesWords (dword first ++ dword level) (Message.read : Read ShareEnumResponse)
      fun r bs => ∃ cs, IsBareListing level cs r ∧ bs = dword first ++ dword level ++ cs := by
  have hwhole : (dword first ++ dword level).length % 4 = 0 := by
    rw [List.length_append, length_dword, length_dword]
  have hinfo : TakesWords (dword first ++ dword level) (readAs ShareListing) _ :=
    TakesWords.readAs rfl (arm?_eq_none hlevel _ _) (ofLevel_other hlevel .null) hwhole
      fun {position} haligned => (gets_u32_of_aligned haligned first).bind
        (gets_u32_of_aligned (by rw [length_dword]; omega) level)
  refine (hinfo.bind fun info _ _ => TakesWords.u32.bind fun total _ _ =>
    takesWords_readOptional.bind fun resume _ _ => TakesWords.u32.bind fun status _ _ =>
      .pure (ShareEnumResponse.mk info total resume status)).congr fun r bs => ?_
  constructor
  · rintro ⟨_, ⟨id, total, resume, handle, status, hresume, rfl, rfl⟩, rfl⟩
    exact ⟨_, _, _, ⟨id, nofun, rfl, rfl⟩, ⟨total, _, _, rfl, ⟨resume, _, _, hresume,
      ⟨status, _, _, rfl, ⟨rfl, rfl⟩, rfl⟩, rfl⟩, rfl⟩, by simp⟩
  · rintro ⟨_, _, _, ⟨id, -, rfl, rfl⟩, ⟨total, _, _, rfl, ⟨resume, handle, _, hresume,
      ⟨status, _, _, rfl, ⟨rfl, rfl⟩, rfl⟩, rfl⟩, rfl⟩, rfl⟩
    exact ⟨_, ⟨id, total, resume, handle, status, hresume, rfl, rfl⟩, by simp⟩

theorem decode_listing_iff (first : UInt32) {level : UInt32} (hlevel : level ≠ 0 ∧ level ≠ 1)
    (rest : List UInt8) (r : ShareEnumResponse) :
    Message.decode ShareEnumResponse (dword first ++ (dword level ++ rest)) = .ok r ↔
      ∃ bs more, rest = bs ++ more ∧ IsBareListing level bs r := by
  rw [← List.append_assoc]
  refine ((takesWords_listing first hlevel).decode_ok_iff rest r).trans ?_
  constructor
  · rintro ⟨_, more, hsplit, bs, hbs, rfl⟩
    rw [List.append_assoc _ bs more] at hsplit
    exact ⟨bs, more, List.append_cancel_left hsplit, hbs⟩
  · rintro ⟨bs, more, rfl, hbs⟩
    exact ⟨_, more, (List.append_assoc _ bs more).symm, bs, hbs, rfl⟩

end ServerService

open ServerService in
/-- **Only a listing is read past data of unknown size.** At a level that has no layout, an answer
about a share, a host or a workstation is read just when its pointer is null and a status follows;
with any other pointer it is malformed, whatever follows. A listing is read whatever its pointer
is, and what comes at once behind this pointer is read as its total, its resume handle and its
status. So with a pointer that is not null it is malformed only if there are too few words for
these. All that goes wrong is put down to the data. -/
theorem unknown_levels_read (first level : UInt32) (rest : List UInt8) :
    (level ≠ 0 ∧ level ≠ 1 → SkipsNull ShareInfoResponse level (.mk (.unknown level)) rest) ∧
    (level ≠ 100 ∧ level ≠ 101 → SkipsNull ServerInfoResponse level (.mk (.unknown level)) rest) ∧
    (level ≠ 100 ∧ level ≠ 101 →
      SkipsNull WorkstationService.InfoResponse level (.mk (.unknown level)) rest) ∧
    (level ≠ 0 ∧ level ≠ 1 →
      (∀ r, Message.decode ShareEnumResponse (dword first ++ (dword level ++ rest)) = .ok r ↔
        ∃ bs more, rest = bs ++ more ∧ IsBareListing level bs r) ∧
      ((∃ offset defect, Message.decode ShareEnumResponse (dword first ++ (dword level ++ rest)) =
          .error (.malformedData offset defect)) ↔
        ¬ ∃ r bs more, rest = bs ++ more ∧ IsBareListing level bs r)) := by
  refine ⟨fun hlevel => ?_, fun hlevel => ?_, fun hlevel => ?_, fun hlevel => ?_⟩
  · have hunknown : ofValue? (.choice false level .null) = some (ShareInfo.unknown level) :=
      ofLevel_other hlevel .null
    exact skipsNull ShareInfoResponse.mk rfl rfl (arm?_eq_none hlevel _ _) hunknown rest
  · have hunknown : ofValue? (.choice false level .null) = some (ServerInfo.unknown level) :=
      ofLevel_other hlevel .null
    exact skipsNull ServerInfoResponse.mk rfl rfl (arm?_eq_none hlevel _ _) hunknown rest
  · have hunknown : ofValue? (.choice false level .null) =
        some (WorkstationService.WorkstationInfo.unknown level) := ofLevel_other hlevel .null
    exact skipsNull WorkstationService.InfoResponse.mk rfl rfl (arm?_eq_none hlevel _ _) hunknown
      rest
  · have hok := decode_listing_iff first hlevel rest
    refine ⟨hok, ?_⟩
    cases hdecode : Message.decode ShareEnumResponse (dword first ++ (dword level ++ rest)) with
    | ok r => exact iff_of_false nofun (not_not_intro ⟨r, (hok r).mp hdecode⟩)
    | error e =>
      rw [← List.append_assoc] at hdecode
      obtain ⟨offset, defect, rfl⟩ := (takesWords_listing first hlevel).malformed hdecode
      refine iff_of_true ⟨offset, defect, rfl⟩ fun ⟨r, hr⟩ => ?_
      rw [List.append_assoc, (hok r).mpr hr] at hdecode
      cases hdecode

namespace ServerService

/-- A listing at level 2 that tells status 124: a container without entries and without a buffer, a
total of 0, no resume handle, and the status. -/
def sampleContainer : List UInt8 :=
  dword 2 ++ (dword 2 ++ (dword 0x20000 ++ (dword 0 ++ (dword 0 ++ (dword 0 ++ (dword 0 ++
    dword 124))))))

/-- The two words of the container are read as a total and a resume handle, and the total as the
status. So a listing with a pointer that is not null need not be malformed. -/
theorem sampleContainer_read_as_parameters :
    Message.decode ShareEnumResponse sampleContainer = .ok ⟨.unknown 2, 0, none, 0⟩ ∧
    ¬ ∀ first level id rest, level ≠ 0 ∧ level ≠ 1 → id ≠ 0 → ∃ offset defect,
      Message.decode ShareEnumResponse (dword first ++ (dword level ++ (dword id ++ rest))) =
        .error (.malformedData offset defect) := by
  have hread : Message.decode ShareEnumResponse sampleContainer =
      .ok ⟨.unknown 2, 0, none, 0⟩ := rfl
  refine ⟨hread, fun hmalformed => ?_⟩
  obtain ⟨offset, defect, herror⟩ := hmalformed 2 2 0x20000 _ (by decide) (by decide)
  cases hread.symm.trans herror

end ServerService

open ServerService in
/-- A null pointer, two pointers that are not null, and an answer that ends too soon. -/
theorem unknown_levels_read_sampleContainer :
    Message.decode ShareInfoResponse (dword 7 ++ (dword 0 ++ (dword 124 ++ [9]))) =
      .ok ⟨.unknown 7, 124⟩ ∧
    Message.decode ServerInfoResponse (dword 102 ++ (dword 0x20000 ++ dword 124)) =
      .error (.malformedData 4 (.unknownArm 102)) ∧
    (∃ offset defect, Message.decode WorkstationService.InfoResponse (dword 102 ++ [0, 0]) =
      .error (.malformedData offset defect)) ∧
    Message.decode ShareEnumResponse sampleContainer = .ok ⟨.unknown 2, 0, none, 0⟩ := by
  obtain ⟨hshare, -⟩ := unknown_levels_read 0 7 (dword 0 ++ (dword 124 ++ [9]))
  obtain ⟨-, hserver, -⟩ := unknown_levels_read 0 102 (dword 0x20000 ++ dword 124)
  obtain ⟨-, -, hstation, -⟩ := unknown_levels_read 0 102 [0, 0]
  obtain ⟨-, -, -, hlisting⟩ := unknown_levels_read 2 2 (sampleContainer.drop 8)
  have hcut : Message.decode WorkstationService.InfoResponse (dword 102 ++ [0, 0]) =
      .error (.malformedData 4 (.short .u32 4 2)) := rfl
  refine ⟨?_, ?_, ?_, ?_⟩
  · exact ((hshare (by decide)).ok_iff _).mpr ⟨124, [9], rfl, rfl⟩
  · exact (hserver (by decide)).referent 0x20000 (dword 124) (by decide) rfl
  · obtain ⟨offset, defect, he⟩ := (hstation (by decide)).malformed _ hcut
    exact ⟨offset, defect, he ▸ hcut⟩
  · exact ((hlisting (by decide)).1 _).mpr ⟨_, dword 0 ++ dword 124, rfl,
      0x20000, 0, none, dword 0, 0, .none, rfl, rfl⟩

end RemoteCall
