import Mathlib.Data.List.Forall2
import RemoteCall.Proofs.Fragment
import RemoteCall.Proofs.Pdu.Written

/-! A payload over the wire. It is cut into units that fill the size they are given, all but the last
one to the byte; they are written, read and put together again, and the payload comes out
(`fragments_deliver`). Requests and responses differ only in what stands in front of the stub. -/

namespace RemoteCall

/-! ## Slices by their place -/

/-- How many slices a payload of that length has. -/
def sliceCount (room length : Nat) : Nat :=
  if length = 0 then 1 else (length + room - 1) / room

/-- The slice at a place, told from the place alone. -/
def sliceAt (room : Nat) (first : Bool) (payload : List UInt8) (i : Nat) : Slice where
  isFirst := first && decide (i = 0)
  isLast := decide (i + 1 = sliceCount room payload.length)
  remaining := payload.length - i * room
  data := (payload.drop (i * room)).take room

section Slices

variable {room : Nat} (hroom : 0 < room)
include hroom

theorem sliceCount_of_le {length : Nat} (h : length ≤ room) : sliceCount room length = 1 := by
  unfold sliceCount
  split
  · rfl
  · exact Nat.div_eq_of_lt_le (by omega) (by omega)

theorem sliceCount_of_lt {length : Nat} (h : room < length) :
    sliceCount room length = sliceCount room (length - room) + 1 := by
  unfold sliceCount
  rw [if_neg (by omega), if_neg (by omega), ← Nat.add_div_right _ hroom]
  congr 1
  omega

theorem sliceCount_pos (length : Nat) : 0 < sliceCount room length := by
  by_cases h : length ≤ room
  · simp [sliceCount_of_le hroom h]
  · rw [sliceCount_of_lt hroom (by omega)]
    omega

/-- The slices of a payload start at the multiples of the room for them. -/
theorem slices_eq_map_range (first : Bool) (payload : List UInt8) :
    slices room first payload =
      (List.range (sliceCount room payload.length)).map (sliceAt room first payload) := by
  induction first, payload using slices.induct room with
  | case1 first payload h =>
    have hle : payload.length ≤ room := by omega
    rw [slices, dif_pos h, sliceCount_of_le hroom hle]
    simp [sliceAt, sliceCount_of_le hroom hle, List.take_of_length_le hle]
  | case2 first payload h ih =>
    have hlt : room < payload.length := by omega
    have hcount := sliceCount_of_lt hroom hlt
    have hpos := sliceCount_pos hroom (payload.length - room)
    rw [slices, dif_neg h, ih, List.length_drop, hcount, List.range_succ_eq_map, List.map_cons,
      List.map_map]
    have hmore : ¬ sliceCount room (payload.length - room) = 0 := by omega
    congr 1
    · simp [sliceAt, hcount, hmore]
    · apply List.map_congr_left
      intro i _
      have hstart : (i + 1) * room = room + i * room := by rw [Nat.succ_mul, Nat.add_comm]
      simp [sliceAt, hcount, hstart, Nat.sub_sub]

/-- Every slice but the last one takes up all the room. -/
theorem length_data_sliceAt {first : Bool} {payload : List UInt8} {i : Nat}
    (h : i + 1 < sliceCount room payload.length) :
    (sliceAt room first payload i).data.length = room := by
  have hlong : (i + 1) * room < payload.length := by
    unfold sliceCount at h
    split at h
    · omega
    · rw [Nat.lt_iff_add_one_le, Nat.le_div_iff_mul_le hroom, Nat.succ_mul] at h
      omega
  rw [Nat.succ_mul] at hlong
  simp only [sliceAt, List.length_take, List.length_drop]
  omega

/-- The slices from a place on carry what is left of the payload there. -/
theorem flatMap_data_drop_slices (first : Bool) (payload : List UInt8) (i : Nat) :
    ((slices room first payload).drop i).flatMap Slice.data = payload.drop (i * room) := by
  induction first, payload using slices.induct room generalizing i with
  | case1 first payload h =>
    rw [slices, dif_pos h]
    cases i with
    | zero => simp
    | succ i =>
      have hend : payload.length ≤ (i + 1) * room := by
        rw [Nat.succ_mul]
        omega
      simp [List.drop_eq_nil_of_le hend]
  | case2 first payload h ih =>
    rw [slices, dif_neg h]
    cases i with
    | zero =>
      have hrest := ih 0
      rw [Nat.zero_mul, List.drop_zero, List.drop_zero] at hrest
      simp [hrest]
    | succ i =>
      have hstart : (i + 1) * room = room + i * room := by rw [Nat.succ_mul, Nat.add_comm]
      simpa [hstart] using ih i

end Slices

/-! ## Units that carry them -/

namespace Pdu

/-- The part of a call that a unit carries. -/
def stub : Pdu → List UInt8
  | request r => r.stub
  | response r => r.stub
  | _ => []

def fragment (u : Pdu) : Fragment := ⟨u.header.callId, u.header.flags, u.stub⟩

def allocHint : Pdu → UInt32
  | request r => r.allocHint
  | response r => r.allocHint
  | fault f => f.allocHint
  | _ => 0

theorem SameContent.fragment_eq {u u' : Pdu} (h : u.SameContent u') :
    u'.fragment = u.fragment := by
  obtain ⟨f, a, rfl⟩ := h
  cases u <;> rfl

theorem map_fragment_of_sameContent {us us' : List Pdu} (h : List.Forall₂ SameContent us us') :
    us'.map fragment = us.map fragment := by
  induction h with
  | nil => rfl
  | cons hu _ ih => rw [List.map_cons, List.map_cons, hu.fragment_eq, ih]

end Pdu

/-- The units of a call, by their place: their flags, their hints, which tell how many bytes of the
payload are still to come, and the bytes that are written for them. What is read from these bytes is
put together to the payload. -/
structure Delivers (maxFragment : UInt16) (us : List Pdu) (payload : List UInt8) : Prop where
  isFirst : ∀ i (h : i < us.length), us[i].header.flags.isFirst = decide (i = 0)
  isLast : ∀ i (h : i < us.length), us[i].header.flags.isLast = decide (i + 1 = us.length)
  allocHint : ∀ i (h : i < us.length),
    us[i].allocHint = UInt32.ofNat ((us.drop i).flatMap Pdu.stub).length
  arrives : ∃ bs received, us.mapM Pdu.encode = .ok bs ∧ bs.mapM Pdu.decode = .ok received ∧
    (∀ i (h : i < bs.length), bs[i].length ≤ maxFragment.toNat ∧
      (i + 1 < bs.length → bs[i].length = maxFragment.toNat)) ∧
    List.Forall₂ Pdu.SameContent us received ∧
    reassemble (received.map Pdu.fragment) = .ok payload

theorem Pdu.mem_of_mapM_encode {us : List Pdu} {bs : List (List UInt8)}
    (h : us.mapM Pdu.encode = .ok bs) {u : Pdu} (hu : u ∈ us) {b : List UInt8}
    (hb : u.encode = .ok b) : b ∈ bs := by
  induction us generalizing bs with
  | nil => cases hu
  | cons u' us ih =>
    rw [List.mapM_cons] at h
    obtain ⟨b', hb', h⟩ := bind_ok_iff.mp h
    obtain ⟨rest, hrest, h⟩ := bind_ok_iff.mp h
    cases h
    rcases List.mem_cons.mp hu with rfl | hu
    · cases hb.symm.trans hb'
      exact List.mem_cons_self
    · exact List.mem_cons_of_mem _ (ih hrest hu)

/-- No fragment is longer than it may be. -/
theorem Delivers.length_le {maxFragment : UInt16} {us : List Pdu} {payload : List UInt8}
    (h : Delivers maxFragment us payload) {u : Pdu} (hu : u ∈ us) {b : List UInt8}
    (hb : u.encode = .ok b) : b.length ≤ maxFragment.toNat := by
  obtain ⟨bs, -, hbs, -, hlength, -⟩ := h.arrives
  obtain ⟨i, hi, rfl⟩ := List.mem_iff_getElem.mp (Pdu.mem_of_mapM_encode hbs hu hb)
  exact (hlength i hi).1

/-- The unit carries that slice of a call behind so many bytes. -/
structure Slice.CarriedBy (callId : UInt32) (overhead : Nat) (s : Slice) (u : Pdu) : Prop where
  alike : u.fragment.Alike (s.fragment callId)
  allocHint : u.allocHint = s.allocHint
  written : ∃ b, u.Written b ∧ b.length = overhead + s.data.length

section Cut

variable {callId : UInt32} {overhead room : Nat} {ofSlice : Slice → Pdu} (hroom : 0 < room)
  (h : ∀ s : Slice, s.data.length ≤ room → s.CarriedBy callId overhead (ofSlice s))
  (payload : List UInt8)
include hroom h

theorem carriedBy_of_mem {s : Slice} (hs : s ∈ slices room true payload) :
    s.CarriedBy callId overhead (ofSlice s) :=
  h s (length_data_le_of_mem_slices (by omega) true payload s hs)

theorem carriedBy_getElem {i : Nat} (hi : i < ((slices room true payload).map ofSlice).length) :
    (sliceAt room true payload i).CarriedBy callId overhead
      ((slices room true payload).map ofSlice)[i] := by
  rw [List.length_map] at hi
  have hplace : (slices room true payload)[i] = sliceAt room true payload i := by
    simp [slices_eq_map_range hroom]
  have hcarried := carriedBy_of_mem hroom h payload (List.getElem_mem hi)
  rw [List.getElem_map]
  rwa [hplace] at hcarried ⊢

theorem written_of_mem :
    ∀ u ∈ (slices room true payload).map ofSlice, ∃ b, u.Written b := by
  intro u hu
  obtain ⟨s, hs, rfl⟩ := List.mem_map.mp hu
  obtain ⟨b, hb, -⟩ := (carriedBy_of_mem hroom h payload hs).written
  exact ⟨b, hb⟩

theorem flatMap_stub_drop (i : Nat) :
    (((slices room true payload).map ofSlice).drop i).flatMap Pdu.stub =
      payload.drop (i * room) := by
  rw [← flatMap_data_drop_slices hroom true payload i, ← List.map_drop, List.flatMap_map]
  refine List.flatMap_congr fun s hs => ?_
  exact (carriedBy_of_mem hroom h payload (List.mem_of_mem_drop hs)).alike.stub

theorem fragments_of_slices :
    Fragments callId true (((slices room true payload).map ofSlice).map Pdu.fragment) payload := by
  refine (fragments_slices callId room true payload).congr ?_
  rw [List.map_map, List.forall₂_map_left_iff, List.forall₂_map_right_iff, List.forall₂_same]
  exact fun s hs => (carriedBy_of_mem hroom h payload hs).alike

/-- A payload that is cut into units is delivered by them. -/
theorem delivers_slices {maxFragment : UInt16} (hmax : maxFragment.toNat = overhead + room) :
    Delivers maxFragment ((slices room true payload).map ofSlice) payload := by
  have hcount : (slices room true payload).length = sliceCount room payload.length := by
    simp [slices_eq_map_range hroom]
  have hflags := fun s : Slice => s.flags_spec
  refine ⟨fun i hi => ?_, fun i hi => ?_, fun i hi => ?_, ?_⟩
  · refine (carriedBy_getElem hroom h payload hi).alike.isFirst.trans ?_
    simp [Slice.fragment, hflags, sliceAt]
  · refine (carriedBy_getElem hroom h payload hi).alike.isLast.trans ?_
    simp [Slice.fragment, hflags, sliceAt, hcount]
  · rw [(carriedBy_getElem hroom h payload hi).allocHint, flatMap_stub_drop hroom h,
      List.length_drop]
    rfl
  · obtain ⟨bs, hbs⟩ := Pdu.exists_written_all (written_of_mem hroom h payload)
    obtain ⟨received, hdecode, hsame⟩ := Pdu.mapM_decode hbs
    refine ⟨bs, received, Pdu.mapM_encode hbs, hdecode, fun i hi => ?_, hsame, ?_⟩
    · have hall := hbs.length_eq
      have hi' : i < ((slices room true payload).map ofSlice).length := by omega
      obtain ⟨b, hb, hlength⟩ := (carriedBy_getElem hroom h payload hi').written
      have hsame : bs[i] = b := (hbs.get hi' hi).unique hb
      rw [List.length_map, hcount] at hall
      refine ⟨?_, fun hlast => ?_⟩
      · have hle : (sliceAt room true payload i).data.length ≤ room := List.length_take_le _ _
        rw [hsame]
        omega
      · rw [hsame, hlength, length_data_sliceAt hroom (by omega), hmax]
    · rw [Pdu.map_fragment_of_sameContent hsame]
      exact reassemble_of_fragments (fragments_of_slices hroom h payload)

end Cut

theorem roomFor_of_le {maxFragment : UInt16} {fixed : Nat}
    (h : maxFragment.toNat ≤ Header.size + fixed) :
    roomFor maxFragment fixed =
      .error (.invalidParameter (.noRoom maxFragment.toNat (Header.size + fixed))) := by
  unfold roomFor
  exact if_pos h

theorem lt_of_roomFor {maxFragment : UInt16} {fixed room : Nat}
    (h : roomFor maxFragment fixed = .ok room) : Header.size + fixed < maxFragment.toNat := by
  by_contra hle
  rw [roomFor_of_le (Nat.not_lt.mp hle)] at h
  cases h

theorem Response.carriedBy_ofSlice (callId : UInt32) (contextId : UInt16) (s : Slice)
    (hlength : Header.size + fixedLength + s.data.length < 65536) :
    s.CarriedBy callId (Header.size + fixedLength) (.response (ofSlice callId contextId s)) := by
  have hbody := length_body Representation.standard.order (ofSlice callId contextId s)
  obtain ⟨b, hb, hb'⟩ := Pdu.exists_written_of_length (u := .response (ofSlice callId contextId s))
    (List.mem_singleton_self _) trivial rfl rfl hbody (by rwa [← Nat.add_assoc])
  refine ⟨⟨rfl, rfl, rfl, rfl⟩, rfl, b, hb, ?_⟩
  rw [hb', Nat.add_assoc]
  rfl

/-- Attaching an object changes no other flag of a slice. -/
theorem Slice.flags_union_objectUuid (s : Slice) :
    (s.flags.union .objectUuid).isFirst = s.isFirst ∧
      (s.flags.union .objectUuid).isLast = s.isLast ∧
      (s.flags.union .objectUuid).hasObject = true := by
  have hall : ∀ first last : Bool,
      let flags := ((if first then Flags.firstFragment else Flags.empty).union
        (if last then Flags.lastFragment else Flags.empty)).union .objectUuid
      flags.isFirst = first ∧ flags.isLast = last ∧ flags.hasObject = true := by decide
  exact hall s.isFirst s.isLast

theorem Request.flags_ofSlice (callId : UInt32) (contextId opnum : UInt16) (object : Option Uuid)
    (s : Slice) : let flags := (ofSlice callId contextId opnum object s).header.flags
    flags.isFirst = s.isFirst ∧ flags.isLast = s.isLast ∧ flags.hasObject = object.isSome := by
  cases object with
  | none => exact s.flags_spec
  | some u => exact s.flags_union_objectUuid

theorem Request.object_ofSlice (callId : UInt32) (contextId opnum : UInt16) (object : Option Uuid)
    (s : Slice) : (ofSlice callId contextId opnum object s).object = object := by
  cases object <;> rfl

theorem Request.carriedBy_ofSlice (callId : UInt32) (contextId opnum : UInt16) (object : Option Uuid)
    (s : Slice) (hlength : Header.size + fixedLength object + s.data.length < 65536) :
    s.CarriedBy callId (Header.size + fixedLength object)
      (.request (ofSlice callId contextId opnum object s)) := by
  let r := ofSlice callId contextId opnum object s
  obtain ⟨hfirst, hlast, hobject⟩ := flags_ofSlice callId contextId opnum object s
  obtain ⟨hsfirst, hslast, -⟩ := s.flags_spec
  have hr : r.header.callId = callId ∧ r.header.kind = .request ∧
      r.header.representation = .standard ∧ r.stub = s.data ∧ r.auth = [] := by
    cases object <;> exact ⟨rfl, rfl, rfl, rfl, rfl⟩
  obtain ⟨hid, hkind, hstandard, hstub, hauth⟩ := hr
  have hsame : r.object = object := object_ofSlice ..
  have hbody := length_body Representation.standard.order r
  rw [hstub, hsame] at hbody
  obtain ⟨b, hb, hb'⟩ := Pdu.exists_written_of_length (u := .request r)
    (List.mem_singleton.mpr hkind) (by rw [Pdu.Countable, hsame, hobject]) hstandard hauth hbody
    (by rwa [← Nat.add_assoc])
  refine ⟨⟨hid, hfirst.trans hsfirst.symm, hlast.trans hslast.symm, hstub⟩, rfl, b, hb, ?_⟩
  rw [hb', Nat.add_assoc]

/-! ## Calls -/

/-- A response goes over the wire in fragments that have room for some of it. -/
theorem Response.delivers_fragments (callId : UInt32) (contextId : UInt16) (payload : List UInt8)
    {maxFragment : UInt16} (hroom : Header.size + fixedLength < maxFragment.toNat) :
    ∃ rs, fragments callId contextId payload maxFragment = .ok rs ∧
      Delivers maxFragment (rs.map .response) payload ∧
      ∀ r ∈ rs, r.header = { Header.of .response callId with flags := r.header.flags } ∧
        r.contextId = contextId := by
  have hlt := maxFragment.toNat_lt
  refine ⟨(slices (maxFragment.toNat - (Header.size + fixedLength)) true payload).map
    (ofSlice callId contextId), ?_, ?_, ?_⟩
  · rw [fragments, roomFor_of_lt hroom, ok_bind]
    rfl
  · have hmax : maxFragment.toNat = Header.size + fixedLength +
        (maxFragment.toNat - (Header.size + fixedLength)) := by omega
    have hcarried : ∀ s : Slice, s.data.length ≤ maxFragment.toNat - (Header.size + fixedLength) →
        s.CarriedBy callId (Header.size + fixedLength) (.response (ofSlice callId contextId s)) :=
      fun s hs => carriedBy_ofSlice callId contextId s (by omega)
    rw [List.map_map]
    exact delivers_slices (by omega) hcarried payload hmax
  · intro r hr
    obtain ⟨s, -, rfl⟩ := List.mem_map.mp hr
    exact ⟨rfl, rfl⟩

/-- So does a request, which carries its object in every fragment. -/
theorem Request.delivers_fragments (callId : UInt32) (contextId opnum : UInt16)
    (object : Option Uuid) (payload : List UInt8) {maxFragment : UInt16}
    (hroom : Header.size + fixedLength object < maxFragment.toNat) :
    ∃ rs, fragments callId contextId opnum object payload maxFragment = .ok rs ∧
      Delivers maxFragment (rs.map .request) payload ∧
      ∀ r ∈ rs, r.header.callId = callId ∧ r.contextId = contextId ∧ r.opnum = opnum ∧
        r.object = object ∧ r.header.flags.hasObject = object.isSome := by
  have hlt := maxFragment.toNat_lt
  refine ⟨(slices (maxFragment.toNat - (Header.size + fixedLength object)) true payload).map
    (ofSlice callId contextId opnum object), ?_, ?_, ?_⟩
  · rw [fragments, roomFor_of_lt hroom, ok_bind]
    rfl
  · have hmax : maxFragment.toNat = Header.size + fixedLength object +
        (maxFragment.toNat - (Header.size + fixedLength object)) := by omega
    have hcarried : ∀ s : Slice,
        s.data.length ≤ maxFragment.toNat - (Header.size + fixedLength object) →
        s.CarriedBy callId (Header.size + fixedLength object)
          (.request (ofSlice callId contextId opnum object s)) :=
      fun s hs => carriedBy_ofSlice callId contextId opnum object s (by omega)
    rw [List.map_map]
    exact delivers_slices (by omega) hcarried payload hmax
  · intro r hr
    obtain ⟨s, -, rfl⟩ := List.mem_map.mp hr
    have hflags := flags_ofSlice callId contextId opnum object s
    cases object <;> exact ⟨rfl, rfl, rfl, rfl, hflags.2.2⟩

/-- **Fragments bring a payload over the wire.** Whenever the size of a fragment leaves room behind
the headers, a payload of any length is cut, as a response or as a request, into fragments that
deliver it; otherwise there are no fragments. -/
theorem fragments_deliver (callId : UInt32) (contextId opnum : UInt16) (object : Option Uuid)
    (payload : List UInt8) (maxFragment : UInt16) :
    (if 24 < maxFragment.toNat then
      ∃ rs, Response.fragments callId contextId payload maxFragment = .ok rs ∧
        Delivers maxFragment (rs.map .response) payload ∧
        ∀ r ∈ rs, r.header.callId = callId ∧ r.contextId = contextId
    else ∃ defect, Response.fragments callId contextId payload maxFragment =
      .error (.invalidParameter defect)) ∧
    (if (if object.isSome then 40 else 24) < maxFragment.toNat then
      ∃ rs, Request.fragments callId contextId opnum object payload maxFragment = .ok rs ∧
        Delivers maxFragment (rs.map .request) payload ∧
        ∀ r ∈ rs, r.header.callId = callId ∧ r.contextId = contextId ∧ r.opnum = opnum ∧
          r.object = object ∧ r.header.flags.hasObject = object.isSome
    else ∃ defect, Request.fragments callId contextId opnum object payload maxFragment =
      .error (.invalidParameter defect)) := by
  have hresponse : Header.size + Response.fixedLength = 24 := rfl
  have hrequest : Header.size + Request.fixedLength object = if object.isSome then 40 else 24 := by
    cases object <;> rfl
  constructor
  · split
    · have hroom : Header.size + Response.fixedLength < maxFragment.toNat := by omega
      obtain ⟨rs, hrs, hdelivers, hfields⟩ :=
        Response.delivers_fragments callId contextId payload hroom
      refine ⟨rs, hrs, hdelivers, fun r hr => ?_⟩
      rw [(hfields r hr).1]
      exact ⟨rfl, (hfields r hr).2⟩
    · refine ⟨.noRoom maxFragment.toNat (Header.size + Response.fixedLength), ?_⟩
      rw [Response.fragments, roomFor_of_le (by omega)]
      rfl
  · rw [← hrequest]
    split
    · exact Request.delivers_fragments callId contextId opnum object payload ‹_›
    · refine ⟨.noRoom maxFragment.toNat (Header.size + Request.fixedLength object), ?_⟩
      rw [Request.fragments, roomFor_of_le (by omega)]
      rfl

end RemoteCall
