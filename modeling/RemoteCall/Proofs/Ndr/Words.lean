import RemoteCall.Proofs.Ndr.Fits
import RemoteCall.Proofs.Ndr.Truncation

/-! Reads that take nothing but whole words from an aligned place (`TakesWords`). For such a read it
can be said of all data at once what comes of them: it takes the words that it is described with, or
there are none and it fails. The levels without a layout are read so, and so are the parameters that
follow them. -/

namespace RemoteCall.Ndr

/-! ## Reads that fail -/

/-- The read fails at that position on these bytes, whatever was read before. -/
def FailsOn {α : Type} (r : Read α) (position : Nat) (bs : List UInt8) (e : Error) : Prop :=
  ∀ pending arena, ∃ d, r ⟨bs, position, pending, arena⟩ = .error e d

section FailsOn

variable {α β : Type} {r : Read α} {f : α → Read β} {position : Nat} {bs cs : List UInt8} {a : α}
  {e : Error}

theorem FailsOn.bind (h : FailsOn r position bs e) : FailsOn (r >>= f) position bs e := by
  intro pending arena
  obtain ⟨d, hd⟩ := h pending arena
  exact ⟨d, bind_of_eq_error hd⟩

theorem Gets.bind_failsOn (hr : Gets r position bs a)
    (hf : FailsOn (f a) (position + bs.length) cs e) : FailsOn (r >>= f) position (bs ++ cs) e := by
  intro pending arena
  obtain ⟨d, hd⟩ := hf pending arena
  rw [bind_of_eq_ok (hr cs pending arena)]
  exact ⟨d, hd⟩

theorem failsOn_u32 (haligned : position % 4 = 0) (hshort : bs.length < 4) :
    FailsOn readU32 position bs (.malformedData position (.short .u32 4 bs.length)) := by
  have halign : Gets (align 4) position [] () := by
    refine gets_align ?_
    rw [gapLength, haligned]
    rfl
  have htake : FailsOn (takeBytes 4 .u32) position bs
      (.malformedData position (.short .u32 4 bs.length)) := fun pending arena =>
    ⟨_, takeBytes_of_short .u32 hshort⟩
  exact halign.bind_failsOn htake.bind

end FailsOn

theorem dword_cases (bs : List UInt8) : bs.length < 4 ∨ ∃ n more, bs = dword n ++ more := by
  by_cases hshort : bs.length < 4
  · exact .inl hshort
  · have hlength : (bs.take 4).length = 4 := List.length_take_of_le (by omega)
    refine .inr ⟨ByteOrder.little.read32 (bs.take 4), bs.drop 4, ?_⟩
    rw [dword, ByteOrder.word32_read32 _ hlength, List.take_append_drop]

theorem length_dword (n : UInt32) : (dword n).length = 4 := ByteOrder.length_word32 .little n

/-! ## Reads of whole words -/

/-- From data that begin with `front`, the read takes whole words, and those that `P` says. If there
are none, it fails because of the data. -/
structure TakesWords {α : Type} (front : List UInt8) (r : Read α) (P : α → List UInt8 → Prop) :
    Prop where
  whole : ∀ {a bs}, P a bs → bs.length % 4 = 0
  gets : ∀ {position a bs}, position % 4 = 0 → P a bs → Gets r position bs a
  fails : ∀ {position}, position % 4 = 0 → ∀ rest,
    (∃ a bs more, front ++ rest = bs ++ more ∧ P a bs) ∨
      ∃ offset defect, FailsOn r position (front ++ rest) (.malformedData offset defect)

namespace TakesWords

variable {α β : Type} {front : List UInt8} {r : Read α} {f : α → Read β}
  {P P' : α → List UInt8 → Prop} {Q : α → β → List UInt8 → Prop}

/-- A read that takes what stands in front, and nothing else. -/
theorem of_gets {a : α} (hwhole : front.length % 4 = 0)
    (hr : ∀ {position}, position % 4 = 0 → Gets r position front a) :
    TakesWords front r fun b bs => b = a ∧ bs = front where
  whole := by
    rintro _ _ ⟨-, rfl⟩
    exact hwhole
  gets := by
    rintro _ _ _ haligned ⟨rfl, rfl⟩
    exact hr haligned
  fails _ rest := .inl ⟨a, front, rest, rfl, rfl, rfl⟩

theorem pure (a : α) : TakesWords [] (pure a : Read α) fun b bs => b = a ∧ bs = [] :=
  .of_gets rfl fun _ => gets_pure a

theorem bind (hr : TakesWords front r P) (hf : ∀ a us, P a us → TakesWords [] (f a) (Q a)) :
    TakesWords front (r >>= f) fun b bs => ∃ a us vs, P a us ∧ Q a b vs ∧ bs = us ++ vs where
  whole := by
    rintro b _ ⟨a, us, vs, hus, hvs, rfl⟩
    have hfirst := hr.whole hus
    have hsecond := (hf a us hus).whole hvs
    rw [List.length_append]
    omega
  gets := by
    rintro position b _ haligned ⟨a, us, vs, hus, hvs, rfl⟩
    have hfirst := hr.whole hus
    exact (hr.gets haligned hus).bind ((hf a us hus).gets (by omega) hvs)
  fails := by
    intro position haligned rest
    rcases hr.fails haligned rest with ⟨a, us, more, hsplit, hus⟩ | ⟨offset, defect, hfails⟩
    · have hfirst := hr.whole hus
      have haligned' : (position + us.length) % 4 = 0 := by omega
      rcases (hf a us hus).fails haligned' more with
        ⟨b, vs, more', hmore, hvs⟩ | ⟨offset, defect, hfails⟩
      · refine .inl ⟨b, us ++ vs, more', ?_, a, us, vs, hus, hvs, rfl⟩
        rw [hsplit, List.append_assoc]
        exact congrArg (us ++ ·) hmore
      · refine .inr ⟨offset, defect, ?_⟩
        rw [hsplit]
        exact (hr.gets haligned hus).bind_failsOn hfails
    · exact .inr ⟨offset, defect, hfails.bind⟩

theorem congr (h : TakesWords front r P) (hiff : ∀ a bs, P' a bs ↔ P a bs) :
    TakesWords front r P' := by
  obtain rfl : P' = P := funext₂ fun a bs => propext (hiff a bs)
  exact h

theorem u32 : TakesWords [] readU32 fun n bs => bs = dword n where
  whole := by
    rintro n _ rfl
    rw [length_dword]
  gets := by
    rintro position n _ haligned rfl
    exact gets_u32_of_aligned haligned n
  fails := by
    intro position haligned rest
    rcases dword_cases rest with hshort | ⟨n, more, hrest⟩
    · exact .inr ⟨_, _, failsOn_u32 haligned hshort⟩
    · exact .inl ⟨n, dword n, more, hrest, rfl⟩

end TakesWords

/-! ## Constructs without targets -/

section Constructs

variable {g : Grammar} {l : Layout} {position : Nat} {bs : List UInt8} {v : Value} {e : Error}

/-- Nothing is left to read after the fixed part, and nothing to bind. -/
theorem Gets.construct (hr : Gets (l.read g) position bs v)
    (hbind : ∀ d, Ndr.bind g l v d = .ok v d) : Gets (readConstruct g l) position bs v := by
  intro rest pending arena
  have hcollect : collecting (l.read g) ⟨bs ++ rest, position, pending, arena⟩ =
      .ok (v, []) ⟨rest, position + bs.length, pending, arena⟩ := by
    rw [collecting_eq]
    dsimp only
    rw [hr rest [] arena]
  exact (bind_of_eq_ok hcollect).trans (hbind _)

theorem FailsOn.construct (hr : FailsOn (l.read g) position bs e) :
    FailsOn (readConstruct g l) position bs e := by
  intro pending arena
  obtain ⟨d, hd⟩ := hr [] arena
  have hcollect : collecting (l.read g) ⟨bs, position, pending, arena⟩ = .error e d := by
    rw [collecting_eq]
    dsimp only
    rw [hd]
  exact ⟨d, bind_of_eq_error hcollect⟩

theorem TakesWords.construct {front : List UInt8} {P : Value → List UInt8 → Prop}
    (hr : TakesWords front (l.read g) P)
    (hbind : ∀ {v bs}, P v bs → ∀ d, Ndr.bind g l v d = .ok v d) :
    TakesWords front (readConstruct g l) P where
  whole := hr.whole
  gets haligned hv := (hr.gets haligned hv).construct (hbind hv)
  fails haligned rest := (hr.fails haligned rest).imp_right
    fun ⟨offset, defect, hfails⟩ => ⟨offset, defect, hfails.construct⟩

end Constructs

/-! ## Levels without a layout -/

section Levels

variable {g : Grammar} {twice : Bool} {arms : List (UInt32 × Layout)} {level id : UInt32}
  {front : List UInt8}

theorem readArm_of_unknown (harm : Layout.arm? arms level = none) : readArm twice arms level =
    get >>= fun d : Decoder => readU32 >>= dropArm twice level d.position := by
  unfold readArm
  rw [harm]

theorem failsOn_dropArm {position : Nat} (haligned : position % 4 = 0) (hid : id ≠ 0)
    (level : UInt32) (offset : Nat) (rest : List UInt8) :
    FailsOn (readU32 >>= dropArm false level offset) position (dword id ++ rest)
      (.malformedData offset (.unknownArm level)) := by
  have hbne : (id != 0) = true := bne_iff_ne.mpr hid
  have hdrop : FailsOn (dropArm false level offset id) (position + (dword id).length) rest
      (.malformedData offset (.unknownArm level)) := by
    intro pending arena
    unfold dropArm
    simp only [hbne, Bool.not_false, Bool.and_self, if_true]
    exact ⟨_, rfl⟩
  exact (gets_u32_of_aligned haligned id).bind_failsOn hdrop

/-- Only a null pointer is skipped, unless the level is written twice. -/
theorem takesWords_readArm (harm : Layout.arm? arms level = none) :
    TakesWords [] (readArm twice arms level) fun v bs =>
      ∃ id, (twice = false → id = 0) ∧ v = .choice twice level .null ∧ bs = dword id where
  whole := by
    rintro _ _ ⟨id, -, -, rfl⟩
    rw [length_dword]
  gets := by
    rintro position _ _ haligned ⟨id, hid, rfl, rfl⟩
    rw [readArm_of_unknown harm]
    intro rest pending arena
    exact gets_dropArm (gets_u32_of_aligned haligned id) hid level position rest pending arena
  fails := by
    intro position haligned rest
    rw [readArm_of_unknown harm]
    rcases dword_cases rest with hshort | ⟨id, more, rfl⟩
    · have hfails := (failsOn_u32 haligned hshort).bind (f := dropArm twice level position)
      exact .inr ⟨_, _, fun pending arena => hfails pending arena⟩
    · by_cases hid : twice = false → id = 0
      · exact .inl ⟨_, dword id, more, rfl, id, hid, rfl, rfl⟩
      · obtain ⟨rfl, hne⟩ := Classical.not_imp.mp hid
        have hfails := failsOn_dropArm haligned hne level position more
        exact .inr ⟨_, _, fun pending arena => hfails pending arena⟩

/-- The whole choice, with its level in front. -/
theorem takesWords_readChoice (harm : Layout.arm? arms level = none) (hwhole : front.length % 4 = 0)
    (hlevel : ∀ {position}, position % 4 = 0 → Gets (readLevel twice) position front level) :
    TakesWords front (readChoice twice arms) fun v bs =>
      ∃ id, (twice = false → id = 0) ∧ v = .choice twice level .null ∧ bs = front ++ dword id := by
  rw [readChoice_eq]
  have hread := (TakesWords.of_gets hwhole hlevel).bind (f := readArm twice arms)
    (Q := fun _ v bs => ∃ id, (twice = false → id = 0) ∧ v = .choice twice level .null ∧
      bs = dword id) <| by
    rintro _ _ ⟨rfl, -⟩
    exact takesWords_readArm harm
  refine hread.congr fun v bs => ?_
  constructor
  · rintro ⟨id, hid, rfl, rfl⟩
    exact ⟨level, front, dword id, ⟨rfl, rfl⟩, ⟨id, hid, rfl, rfl⟩, rfl⟩
  · rintro ⟨_, _, _, ⟨-, rfl⟩, ⟨id, hid, rfl, rfl⟩, rfl⟩
    exact ⟨id, hid, rfl, rfl⟩

end Levels

/-! ## Parameters and messages -/

section Parameters

variable {α : Type} [Marshal α] {front : List UInt8}

theorem TakesWords.expect (v : Value) :
    TakesWords [] (expect α v) fun a bs => ofValue? v = some a ∧ bs = [] := by
  unfold Ndr.expect
  cases (ofValue? v : Option α) with
  | some a =>
    refine (TakesWords.pure a).congr fun b bs => and_congr_left fun _ => ?_
    rw [Option.some.injEq, eq_comm]
  | none =>
    refine ⟨nofun, nofun, fun {position} _ rest => .inr ⟨position, .shape, fun _ _ => ⟨_, rfl⟩⟩⟩

/-- A level that has no layout, read after what stands in front of its pointer. -/
theorem TakesWords.readAs {twice : Bool} {arms : List (UInt32 × Layout)} {level : UInt32} {a : α}
    (hlayout : Marshal.layout α = .choice twice arms) (harm : Layout.arm? arms level = none)
    (ha : ofValue? (.choice twice level .null) = some a) (hwhole : front.length % 4 = 0)
    (hlevel : ∀ {position}, position % 4 = 0 → Gets (readLevel twice) position front level) :
    TakesWords front (readAs α) fun b bs =>
      ∃ id, (twice = false → id = 0) ∧ b = a ∧ bs = front ++ dword id := by
  have hread : TakesWords front ((Layout.choice twice arms).read .empty) _ :=
    takesWords_readChoice harm hwhole hlevel
  have hconstruct := hread.construct <| by
    rintro _ _ ⟨id, -, rfl, -⟩ d
    rfl
  rw [← hlayout] at hconstruct
  refine (hconstruct.bind fun v _ _ => TakesWords.expect v).congr fun b bs => ?_
  constructor
  · rintro ⟨id, hid, rfl, rfl⟩
    exact ⟨_, _, [], ⟨id, hid, rfl, rfl⟩, ⟨ha, rfl⟩, (List.append_nil _).symm⟩
  · rintro ⟨_, _, _, ⟨id, hid, rfl, rfl⟩, ⟨hb, rfl⟩, rfl⟩
    exact ⟨id, hid, Option.some.inj (hb.symm.trans ha), List.append_nil _⟩

/-- A pointer to a number, and the number if it is not null. -/
inductive IsOptionalWord : Option UInt32 → List UInt8 → Prop
  | none : IsOptionalWord none (dword 0)
  | some {id : UInt32} (hid : id ≠ 0) (n : UInt32) : IsOptionalWord (some n) (dword id ++ dword n)

theorem takesWords_readReferred (id : UInt32) :
    TakesWords [] (readReferred .empty .u32 id) fun v bs =>
      (id = 0 ∧ v = none ∧ bs = []) ∨ (id ≠ 0 ∧ ∃ n, v = some (.u32 n) ∧ bs = dword n) := by
  unfold readReferred
  split
  · rename_i hid
    refine (TakesWords.pure none).congr fun v bs => ?_
    simp [hid]
  · rename_i hid
    have hread : TakesWords [] (Layout.u32.read .empty) _ :=
      TakesWords.u32.bind fun n _ _ => .pure (Value.u32 n)
    have hconstruct := hread.construct (g := .empty) <| by
      rintro _ _ ⟨n, _, _, -, ⟨rfl, -⟩, -⟩ d
      rfl
    refine (hconstruct.bind fun v _ _ => .pure (some v)).congr fun v bs => ?_
    simp [hid]

theorem takesWords_readOptional : TakesWords [] (readOptional UInt32) IsOptionalWord := by
  have hunique : TakesWords [] (readUnique .empty .u32) _ :=
    TakesWords.u32.bind fun id _ _ => takesWords_readReferred id
  unfold readOptional
  refine (hunique.bind (Q := fun v a bs => v.map ofValue? = a.map some ∧ bs = [])
    fun v _ _ => ?_).congr fun a bs => ?_
  · cases v with
    | none =>
      refine (TakesWords.pure none).congr fun a bs => and_congr_left fun _ => ?_
      cases a <;> simp
    | some v =>
      refine ((TakesWords.expect v).bind fun n _ _ => .pure (some n)).congr fun a bs => ?_
      cases a <;> simp [and_comm]
  constructor
  · rintro (_ | ⟨hid, n⟩)
    · exact ⟨none, _, [], ⟨0, _, [], rfl, .inl ⟨rfl, rfl, rfl⟩, rfl⟩, ⟨rfl, rfl⟩, rfl⟩
    · refine ⟨some (.u32 n), _, [], ⟨_, _, _, rfl, .inr ⟨hid, n, rfl, rfl⟩, rfl⟩, ⟨rfl, rfl⟩, ?_⟩
      exact (List.append_nil _).symm
  · rintro ⟨v, _, _, ⟨id, _, _, rfl, ⟨rfl, rfl, rfl⟩ | ⟨hid, n, rfl, rfl⟩, rfl⟩, ⟨ha, rfl⟩, rfl⟩
    · cases a with
      | none => exact .none
      | some n => cases ha
    · cases a with
      | none => cases ha
      | some m =>
        cases ha
        rw [List.append_nil]
        exact .some hid n

end Parameters

section Messages

variable {α : Type} [Message α] {front : List UInt8} {P : α → List UInt8 → Prop}

theorem TakesWords.decode_ok_iff (h : TakesWords front (Message.read : Read α) P)
    (rest : List UInt8) (a : α) : Message.decode α (front ++ rest) = .ok a ↔
      ∃ bs more, front ++ rest = bs ++ more ∧ P a bs := by
  have hgets : ∀ {b bs more}, front ++ rest = bs ++ more → P b bs →
      Message.decode α (front ++ rest) = .ok b := by
    intro b bs more hsplit hb
    rw [hsplit]
    exact Message.decode_of_ok (h.gets rfl hb more [] [])
  constructor
  · intro hdecode
    rcases h.fails (Nat.zero_mod 4) rest with ⟨b, bs, more, hsplit, hb⟩ | ⟨offset, defect, hfails⟩
    · cases hdecode.symm.trans (hgets hsplit hb)
      exact ⟨bs, more, hsplit, hb⟩
    · obtain ⟨d, hd⟩ := hfails [] []
      cases hdecode.symm.trans (Message.decode_of_error hd)
  · rintro ⟨bs, more, hsplit, hb⟩
    exact hgets hsplit hb

theorem TakesWords.malformed (h : TakesWords front (Message.read : Read α) P) {rest : List UInt8}
    {e : Error} (hdecode : Message.decode α (front ++ rest) = .error e) :
    ∃ offset defect, e = .malformedData offset defect := by
  rcases h.fails (Nat.zero_mod 4) rest with ⟨b, bs, more, hsplit, hb⟩ | ⟨offset, defect, hfails⟩
  · cases hdecode.symm.trans ((h.decode_ok_iff rest b).mpr ⟨bs, more, hsplit, hb⟩)
  · obtain ⟨d, hd⟩ := hfails [] []
    cases hdecode.symm.trans (Message.decode_of_error hd)
    exact ⟨offset, defect, rfl⟩

end Messages

end RemoteCall.Ndr
