import RemoteCall.Proofs.Ndr.Mirror

/-! Values of a layout. Whatever its pointers refer to, and however deep they nest, such a value can
be written as a construct, and the construct is read back as it was. -/

namespace RemoteCall.Ndr

mutual

/-- A value of a layout, with all of its targets. Each pointer is null or bound, and lengths can be
written as counts. -/
inductive Fits (g : Grammar) : Layout → Value → Prop
  | u8 (n : UInt8) : Fits g .u8 (.u8 n)
  | u16 (n : UInt16) : Fits g .u16 (.u16 n)
  | u32 (n : UInt32) : Fits g .u32 (.u32 n)
  | text {t : Text} (h : t.Storable) : Fits g .text (.text t)
  | array {item : Layout} {vs : List Value} (hlength : vs.length < 2 ^ 32)
      (h : ∀ v ∈ vs, Fits g item v) : Fits g (.array item) (.array vs)
  | record {ls : List Layout} {vs : List Value} (h : FitsAll g ls vs) :
      Fits g (.record ls) (.record vs)
  | null (target : Layout) : Fits g (.pointer target) .null
  | pointer {target : Layout} {v : Value} (h : Fits g target v) :
      Fits g (.pointer target) (.pointer v)
  | linkNull (name : String) : Fits g (.link name) .null
  | link {name : String} {v : Value} (h : Fits g (g name) v) : Fits g (.link name) (.pointer v)
  | choiceNull (twice : Bool) (arms : List (UInt32 × Layout)) (level : UInt32) :
      Fits g (.choice twice arms) (.choice twice level .null)
  | choice (twice : Bool) {arms : List (UInt32 × Layout)} {level : UInt32} {target : Layout}
      {v : Value} (harm : Layout.arm? arms level = some target) (h : Fits g target v) :
      Fits g (.choice twice arms) (.choice twice level (.pointer v))

/-- Values of layouts in a row. -/
inductive FitsAll (g : Grammar) : List Layout → List Value → Prop
  | nil : FitsAll g [] []
  | cons {l : Layout} {v : Value} {ls : List Layout} {vs : List Value} (h : Fits g l v)
      (hrest : FitsAll g ls vs) : FitsAll g (l :: ls) (v :: vs)

end

/-! ## Fixed parts -/

theorem paddingBytes_one (position : Nat) : paddingBytes 1 position = [] := by
  unfold paddingBytes
  rw [Nat.mod_one]
  rfl

section Mirrors

variable {g : Grammar}

theorem mirrors_u8 (n : UInt8) :
    Mirrors g (Value.u8 n).fixed (Layout.u8.read g) (BindsTo (.u8 n)) := by
  refine mirrors_put (a := Value.u8 n) (fun position => ?_) fun _ => rfl
  rw [paddingBytes_one]
  exact (gets_u8 n position).map Value.u8

theorem mirrors_u16 (n : UInt16) :
    Mirrors g (Value.u16 n).fixed (Layout.u16.read g) (BindsTo (.u16 n)) :=
  mirrors_put (fun position => (gets_u16 n position).map Value.u16) fun _ => rfl

theorem mirrors_u32 (n : UInt32) :
    Mirrors g (Value.u32 n).fixed (Layout.u32.read g) (BindsTo (.u32 n)) :=
  mirrors_put (fun position => (gets_u32 n position).map Value.u32) fun _ => rfl

theorem mirrors_text {t : Text} (h : t.Storable) :
    Mirrors g (Value.text t).fixed (Layout.text.read g) (BindsTo (.text t)) :=
  mirrors_put (fun position => (gets_text h position).map Value.text) fun _ => rfl

theorem mirrors_nil :
    Mirrors g (Value.fixedAll []) (pure [] : Read (List Value)) (AllBindTo []) := by
  refine mirrors_put (a := []) (fun position => ?_) fun _ => rfl
  rw [paddingBytes_one]
  exact gets_pure []

theorem mirrors_items {r : Read Value} {vs : List Value}
    (h : ∀ v ∈ vs, Mirrors g v.fixed r (BindsTo v)) :
    Mirrors g (Value.fixedAll vs) (readTimes r vs.length) (AllBindTo vs) := by
  induction vs with
  | nil => exact mirrors_nil
  | cons v vs ih =>
    have hv := h v (List.mem_cons_self ..)
    have hvs := ih fun w hw => h w (List.mem_cons_of_mem v hw)
    refine Mirrors.append hv hvs fun σ v' vs' hbind hbinds => ?_
    exact congrArg₂ List.cons hbind hbinds

theorem mirrors_array {item : Layout} {vs : List Value} (hlength : vs.length < 2 ^ 32)
    (h : ∀ v ∈ vs, Mirrors g v.fixed (item.read g) (BindsTo v)) :
    Mirrors g (Value.array vs).fixed ((Layout.array item).read g) (BindsTo (.array vs)) := by
  have hitems := mirrors_items h
  refine Mirrors.after_put (gets_u32 (countOf vs.length)) ?_
  rw [toNat_countOf hlength]
  refine hitems.map fun σ vs' hbinds => ?_
  unfold BindsTo
  rw [Value.fill_array]
  exact congrArg Value.array hbinds

theorem gets_level (twice : Bool) (level : UInt32) (position : Nat) :
    Gets (readLevel twice) position
      (paddingBytes 4 position ++ (dword level ++ if twice then dword level else [])) level := by
  cases twice with
  | false =>
    have h := gets_u32 level position
    rw [← List.append_nil (dword level)] at h
    exact h
  | true =>
    have haligned := length_paddingBytes_four position
    rw [← List.append_assoc]
    refine (gets_u32 level position).bind (gets_u32_of_aligned ?_ level)
    rw [List.length_append]
    change (position + (_ + 4)) % 4 = 0
    omega

theorem mirrors_choice {twice : Bool} {arms : List (UInt32 × Layout)} {level : UInt32} {arm : Value}
    (h : Mirrors g arm.fixed (readArm twice arms level) (BindsTo (.choice twice level arm))) :
    Mirrors g (Value.choice twice level arm).fixed ((Layout.choice twice arms).read g)
      (BindsTo (.choice twice level arm)) := by
  change Mirrors g _ (readChoice twice arms) _
  rw [readChoice_eq]
  exact Mirrors.after_put (gets_level twice level) h

theorem mirrors_null (target : Layout) :
    Mirrors g Value.null.fixed (readPointer target) (BindsTo .null) :=
  mirrors_put (fun position => gets_null (gets_u32 0 position) target) fun _ => rfl

/-- Only if the level is written twice the id does not matter. -/
theorem gets_dropArm {twice : Bool} {id : UInt32} {position : Nat} {bs : List UInt8}
    (h : Gets readU32 position bs id) (hid : twice = false → id = 0) (level : UInt32)
    (offset : Nat) :
    Gets (readU32 >>= dropArm twice level offset) position bs (.choice twice level .null) := by
  have hdrop : dropArm twice level offset id = pure (.choice twice level .null) := by
    cases twice with
    | true => rfl
    | false =>
      rw [hid rfl]
      rfl
  refine h.bind_nil ?_
  rw [hdrop]
  exact gets_pure _

/-- A null pointer is fine whether the level is known or not. -/
theorem mirrors_choiceNull (twice : Bool) (arms : List (UInt32 × Layout)) (level : UInt32) :
    Mirrors g (Value.choice twice level .null).fixed ((Layout.choice twice arms).read g)
      (BindsTo (.choice twice level .null)) := by
  refine mirrors_choice ?_
  unfold readArm
  cases Layout.arm? arms level with
  | some target =>
    exact (mirrors_null target).map fun σ v hbind => congrArg (Value.choice twice level) hbind
  | none =>
    exact mirrors_put (fun position => gets_dropArm (gets_u32 0 position) (fun _ => rfl) level
      position) fun _ => rfl

theorem mirrors_arm (twice : Bool) {arms : List (UInt32 × Layout)} {level : UInt32}
    {target : Layout} {v : Value} (harm : Layout.arm? arms level = some target)
    (h : Writes g v.write target v) :
    Mirrors g (Value.choice twice level (.pointer v)).fixed ((Layout.choice twice arms).read g)
      (BindsTo (.choice twice level (.pointer v))) := by
  refine mirrors_choice ?_
  unfold readArm
  rw [harm]
  exact (mirrors_embed h).map fun σ v hbind => congrArg (Value.choice twice level) hbind

end Mirrors

/-! ## All values -/

mutual

theorem Fits.mirrors {g : Grammar} : ∀ {l : Layout} {v : Value}, Fits g l v →
    Mirrors g v.fixed (l.read g) (BindsTo v)
  | _, _, .u8 n => mirrors_u8 n
  | _, _, .u16 n => mirrors_u16 n
  | _, _, .u32 n => mirrors_u32 n
  | _, _, .text h => mirrors_text h
  | _, _, .array hlength h => mirrors_array hlength fun v hv => (h v hv).mirrors
  | _, _, .record h => h.mirrors.map fun σ vs hbinds => by
    unfold BindsTo
    rw [Value.fill_record]
    exact congrArg Value.record hbinds
  | _, _, .null target => mirrors_null target
  | _, _, .pointer h => mirrors_embed h.mirrors.complete
  | _, _, .linkNull name => mirrors_null _
  | _, _, .link h => mirrors_embed h.mirrors.complete
  | _, _, .choiceNull twice arms level => mirrors_choiceNull twice arms level
  | _, _, .choice twice harm h => mirrors_arm twice harm h.mirrors.complete

theorem FitsAll.mirrors {g : Grammar} : ∀ {ls : List Layout} {vs : List Value}, FitsAll g ls vs →
    Mirrors g (Value.fixedAll vs) (Layout.readAll g ls) (AllBindTo vs)
  | _, _, .nil => mirrors_nil
  | _, _, .cons h hrest => Mirrors.append h.mirrors hrest.mirrors fun _ _ _ hbind hbinds =>
    congrArg₂ List.cons hbind hbinds

end

/-- **Whatever fits a layout is written, and read back as it was.** -/
theorem Fits.writes {g : Grammar} {l : Layout} {v : Value} (h : Fits g l v) :
    Writes g v.write l v :=
  h.mirrors.complete

end RemoteCall.Ndr
