import JosKernel.Kern.Keyboard

/-! Keyboard and mouse behind one controller. The driver leaves a mouse byte
where it is, so that everything behind it waits as well. -/
namespace JosKernel.Kern.Keyboard
open JosKernel.Inc JosKernel.General

def fromKeyboard (byte : Source × UInt8) : Bool := byte.1 = .keyboard

def front : Controller → List UInt8
  | (.keyboard, data) :: rest => data :: front rest
  | _ => []

def behind : Controller → Controller
  | (.keyboard, _) :: rest => behind rest
  | controller => controller

def withoutMouse (controller : Controller) : Controller := controller.filter fromKeyboard

def Unobstructed (controller : Controller) : Prop :=
  controller.Pairwise fun earlier later => earlier.1 = .mouse → later.1 = .mouse

instance (controller : Controller) : Decidable (Unobstructed controller) :=
  inferInstanceAs (Decidable (List.Pairwise _ _))

theorem sent_front (controller : Controller) :
    sent (front controller) ++ behind controller = controller := by
  induction controller with
  | nil => rfl
  | cons byte rest ih =>
    obtain ⟨source, data⟩ := byte
    cases source with
    | keyboard => exact congrArg _ ih
    | mouse => rfl

theorem front_sent (bytes : List UInt8) : front (sent bytes) = bytes := by
  induction bytes with
  | nil => rfl
  | cons data bytes ih => exact congrArg _ ih

theorem behind_sent (bytes : List UInt8) : behind (sent bytes) = [] := by
  induction bytes with
  | nil => rfl
  | cons data bytes ih => exact ih

theorem front_length (controller : Controller) : (front controller).length ≤ controller.length := by
  have h := congrArg List.length (sent_front controller)
  rw [List.length_append, sent, List.length_map] at h
  omega

theorem unobstructed_iff (controller : Controller) :
    Unobstructed controller ↔ ∀ byte ∈ behind controller, byte.1 = .mouse := by
  induction controller with
  | nil => simp [Unobstructed, behind]
  | cons byte rest ih =>
    obtain ⟨source, data⟩ := byte
    unfold Unobstructed at ih ⊢
    rw [List.pairwise_cons]
    cases source with
    | keyboard => simp [behind, ih]
    | mouse =>
      constructor
      · rintro ⟨hbehind, -⟩
        exact List.forall_mem_cons.mpr ⟨rfl, fun byte hbyte => hbehind byte hbyte rfl⟩
      · intro hall
        have hrest := (List.forall_mem_cons.mp hall).2
        exact ⟨fun byte hbyte _ => hrest byte hbyte,
          List.pairwise_of_forall_mem_list fun _ _ later hlater _ => hrest later hlater⟩

theorem withoutMouse_of_unobstructed {controller : Controller} (h : Unobstructed controller) :
    withoutMouse controller = sent (front controller) := by
  have hbehind : (behind controller).filter fromKeyboard = [] := by
    apply List.filter_eq_nil_iff.mpr
    intro byte hbyte
    simp [fromKeyboard, (unobstructed_iff controller).mp h byte hbyte]
  have hfront : (sent (front controller)).filter fromKeyboard = sent (front controller) := by
    apply List.filter_eq_self.mpr
    intro byte hbyte
    obtain ⟨data, -, rfl⟩ := List.mem_map.mp hbyte
    rfl
  unfold withoutMouse
  conv => lhs; rw [← sent_front controller]
  rw [List.filter_append, hfront, hbehind, List.append_nil]

section
variable {σ : Type} (cputchar : Int → σ → σ)

theorem decode_length (bytes : List UInt8) (driver : Driver σ) :
    (decode cputchar bytes driver).1.length = bytes.length := by
  induction bytes generalizing driver with
  | nil => rfl
  | cons data bytes ih => simp [decode, ih]

theorem kbdProcData_behind (controller : Controller) (driver : Driver σ) :
    kbdProcData cputchar (behind controller, driver) = (none, behind controller, driver) := by
  induction controller with
  | nil => exact kbdProcData_empty cputchar driver
  | cons byte rest ih =>
    obtain ⟨source, data⟩ := byte
    cases source with
    | keyboard => exact ih
    | mouse => exact kbdProcData_mouse cputchar data rest driver

/-- An interrupt decodes the bytes in front of the first mouse byte. -/
theorem kbdIntr_eq (controller : Controller) (driver : Driver σ) (cons : Cons) :
    kbdIntr cputchar controller driver cons =
      (queueIntr (decode cputchar (front controller) driver).1 cons).map fun cons =>
        ((behind controller, (decode cputchar (front controller) driver).2), cons) := by
  have hyields := kbdProcData_yields cputchar (front controller) (behind controller) driver
  rw [sent_front] at hyields
  have hbound : (decode cputchar (front controller) driver).1.length ≤ controller.length :=
    (decode_length cputchar _ _).symm ▸ front_length controller
  exact consIntr_yields hyields (kbdProcData_behind cputchar controller _) hbound cons

/-- `cons_intr(kbd_proc_data)` consumes all the keyboard bytes and stores what it
would store without the mouse bytes. -/
def IgnoresMouse (controller : Controller) (driver : Driver σ) (cons : Cons) : Prop :=
  ∃ rest driver' cons', kbdIntr cputchar controller driver cons = .ok ((rest, driver'), cons') ∧
    (∀ byte ∈ rest, byte.1 = .mouse) ∧
    ∃ rest' driver'',
      kbdIntr cputchar (withoutMouse controller) driver cons = .ok ((rest', driver''), cons')

theorem unobstructed_of_ignoresMouse {controller : Controller} {driver : Driver σ} {cons : Cons}
    (h : IgnoresMouse cputchar controller driver cons) : Unobstructed controller := by
  obtain ⟨rest, driver', cons', hrun, hrest, -⟩ := h
  rw [kbdIntr_eq] at hrun
  obtain ⟨stored, -, hrun⟩ := exists_of_bind_eq_ok hrun
  cases hrun
  exact (unobstructed_iff controller).mpr hrest

/-- Mouse bytes are ignored exactly when no keyboard byte stands behind one. -/
theorem kbdIntr_ignoresMouse_iff (controller : Controller) (driver : Driver σ) {cons : Cons}
    (hcons : cons.Sized) :
    IgnoresMouse cputchar controller driver cons ↔ Unobstructed controller := by
  constructor
  · exact unobstructed_of_ignoresMouse cputchar
  · intro h
    obtain ⟨stored, hstored, -⟩ :=
      queueIntr_sized hcons (decode cputchar (front controller) driver).1
    refine ⟨behind controller, (decode cputchar (front controller) driver).2, stored, ?_,
      (unobstructed_iff controller).mp h, [], (decode cputchar (front controller) driver).2, ?_⟩
    · rw [kbdIntr_eq, hstored]
      rfl
    · rw [withoutMouse_of_unobstructed h, kbdIntr_eq, front_sent, behind_sent, hstored]
      rfl

end

theorem zeroed_sized : Cons.zeroed.Sized := Served.zeroed.sized

theorem kbdIntr_ignoresMouse_keyFirst :
    IgnoresMouse Sink.collect [(.keyboard, 0x1E), (.mouse, 0x08)] (.boot []) .zeroed :=
  (kbdIntr_ignoresMouse_iff Sink.collect _ (.boot []) zeroed_sized).mpr (by decide)

/-- A mouse byte in front of an `a` keeps it from the console. -/
theorem kbdIntr_not_ignoresMouse :
    ¬∀ (controller : Controller) (driver : Driver (List Int)),
      IgnoresMouse Sink.collect controller driver .zeroed := by
  intro hall
  have h := unobstructed_of_ignoresMouse Sink.collect
    (hall [(.mouse, 0x08), (.keyboard, 0x1E)] (.boot []))
  revert h
  decide

end JosKernel.Kern.Keyboard
