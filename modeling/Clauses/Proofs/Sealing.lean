import Clauses.Proofs.Arranging
import Clauses.Proofs.Encoding
import Clauses.Proofs.MapOrders
import Clauses.Proofs.Provenance

/-!
# What is sealed can be opened

A value of a property with a hook is bound as the bytes that the hook has made of its wire value.
Where the hook opens what it has sealed, the wire value comes back from these bytes, and the value
is the same as it would be without the hook. Four things have to go together for that.

* The hook is told the entity when it seals, but not when it opens: it must do without.
* The bytes are a JSON text of the wire value, with the entries of maps in some order. It is read
  back only if it does not nest too deep, and then as the same wire value, whatever the order.
* The value is opened with the property it was bound with. For a slot of a template with a format of
  its own, that is the property in the format of the slot.
* Whoever reads a value goes through its maps in some order. So it depends on the order which of
  several bad entries is complained about, but nothing else does.

* `Hook.Reversible` — the hook opens what it has sealed
* `Codec.ReadAlike` — two ways to read a value that come to the same
* `Compiler.sealed_values_open` — so all values of a clause are opened again
-/

namespace Clauses

/-- The property without its seal. -/
def Property.unsealed (p : Property) : Property := { p with hook := none }

/-! ## Hooks that open what they have sealed -/

/-- What the hook has sealed for an entity, it opens without being told the entity. -/
def Hook.Reversible (hook : Hook) : Prop :=
  ∀ field entity bytes sealed, hook.transform ⟨field, entity, false⟩ bytes = .ok sealed →
    hook.inverse ⟨field, none, false⟩ sealed = .ok bytes

/-- A hook that undoes its work in each context, and does not look at the entity to do so. -/
theorem Hook.reversible_of_undoes {hook : Hook}
    (hundoes : ∀ context bytes sealed, hook.transform context bytes = .ok sealed →
      hook.inverse context sealed = .ok bytes)
    (hblind : ∀ field entity sealed, hook.inverse ⟨field, entity, false⟩ sealed
      = hook.inverse ⟨field, none, false⟩ sealed) : hook.Reversible := by
  intro field entity bytes sealed h
  rw [← hblind field entity]
  exact hundoes _ _ _ h

namespace RegisteredHook

/-- The hook is called at once. -/
def isSync : RegisteredHook → Bool
  | .sync _ => true
  | .async _ _ => false

/-- The hook opens what it has sealed, and none of its calls cancels what it is part of. -/
def Reversible : RegisteredHook → Prop
  | .sync hook => hook.Reversible
  | .async hook course =>
    hook.Reversible ∧ ∀ context payload, (course context payload).cancels = false

theorem Reversible.hook {hook : RegisteredHook} (h : hook.Reversible) : hook.hook.Reversible := by
  cases hook with
  | sync => exact h
  | async => exact h.1

end RegisteredHook

/-! ## Two ways to read a value -/

/--
Two ways to read a value, each of which goes through maps in the order of its codec. In the
same order they come to the same, be it an error. In any two orders they come to the same
value, or both to an error.
-/
structure Codec.ReadAlike (codec : Codec)
    (read read' : Codec → Except ClauseError Value) : Prop where
  same : ∀ reader, codec.Reorders reader → read reader = read' reader
  other : ∀ reader reader', codec.Reorders reader → codec.Reorders reader' →
    (read reader).toOption = (read' reader').toOption

namespace Codec

variable {codec : Codec} {entity : Option String} {v : Value} {p : Property} {w plain : WireValue}

/-- The value that is read without a hook does not depend on the order. -/
theorem fromWire_unsealed_toOption {reader : Codec} (h : codec.Reorders reader) (w : WireValue)
    (kind : ValueKind) : (reader.fromWire w kind p.unsealed).toOption
      = (w.decode codec.dateFormat p.wireName p.format kind).toOption := by
  rw [fromWire_of_hook_none rfl, WireValue.decode_arranged, h.dateFormat]
  rfl

/-- A way that comes to what is read from a wire value without a hook. -/
theorem ReadAlike.of_plain {read : Codec → Except ClauseError Value} {kind : ValueKind}
    (h : ∀ reader, codec.Reorders reader → read reader = reader.fromWire plain kind p.unsealed) :
    codec.ReadAlike read fun reader => reader.fromWire plain kind p.unsealed where
  same := h
  other reader reader' hr hr' := by
    rw [h reader hr, fromWire_unsealed_toOption hr, fromWire_unsealed_toOption hr']

/-! ## One value -/

/-- All that is behind a sealed value. -/
theorem BoundAs.sealed {n : Nat} (h : codec.BoundAs entity ((v, p), n) w) {id : String}
    {hook : RegisteredHook} (hid : p.hook = some id) (hhook : codec.hooks.get? id = some hook) :
    ∃ plain order sealed, v.encode codec.dateFormat p.wireName p.format = .ok plain ∧
      hook.hook.transform ⟨p.wireName, entity, false⟩ (plain.payload order) = .ok sealed ∧
      w = .binary sealed := by
  obtain ⟨binding, hb, hw⟩ := h
  obtain ⟨plain, hplain, ⟨hnone, -⟩ | ⟨id', hook', hid', hhook', hseals⟩⟩ := bind_ok_iff.mp hb
  · cases hid.symm.trans hnone
  · cases hid.symm.trans hid'
    cases hhook.symm.trans hhook'
    cases hseals with
    | @now hook sealed hsealed =>
      cases hw
      exact ⟨plain, _, sealed, hplain, hsealed, rfl⟩
    | later hook course =>
      cases hw with
      | @deferred _ sealed hsealed => exact ⟨plain, _, sealed, hplain, hsealed, rfl⟩

theorem toWire_unsealed (h : v.encode codec.dateFormat p.wireName p.format = .ok plain) :
    codec.toWire v p.unsealed = .ok plain := by
  have hb : codec.bind none false v p.unsealed = .ok (.ready plain) :=
    bind_ok_iff.mpr ⟨plain, h, .inl ⟨rfl, rfl⟩⟩
  rw [toWire, hb]
  rfl

/-- What is in a JSON text of a wire value is read as it would be from the wire value. -/
theorem decodeOpened_payload (h : plain.Readable Json.maxDepth) (order : MapOrder)
    (kind : ValueKind) :
    codec.decodeOpened kind p (plain.payload order) = codec.fromWire plain kind p.unsealed := by
  rw [decodeOpened, WireValue.ofJson_payload h]
  rfl

/-- A call that does not cancel gives the bytes of its answer. -/
theorem runAlone_ok {field : String} {task : Task} {bytes : Bytes}
    (hquiet : task.course.cancels = false) (h : task.answer false = .ok bytes) :
    runAlone field false task = .ok bytes := by
  have hrun : Batch.run false [task] = .ok [bytes] :=
    Batch.run_ok_iff.mpr (.cons ⟨hquiet, h⟩ .nil)
  rw [runAlone, hrun]
  exact congrArg Except.ok (List.append_nil bytes)

variable {id : String} {hook : RegisteredHook} {sealed bytes : Bytes}

/-- A sealed value is opened by the inverse of its hook. -/
theorem fromWireAsync_sealed (hid : p.hook = some id) (hhook : codec.hooks.get? id = some hook)
    (hr : hook.Reversible) (h : hook.hook.inverse ⟨p.wireName, none, false⟩ sealed = .ok bytes)
    (kind : ValueKind) :
    codec.fromWireAsync false (.binary sealed) kind p = codec.decodeOpened kind p bytes := by
  have hresolve : codec.hooks.resolve p.wireName id = .ok hook :=
    HookRegistry.resolve_ok_iff.mpr hhook
  have hbytes : sealedBytes p.wireName (.binary sealed) = .ok sealed := rfl
  cases hook with
  | sync hook =>
    have hcall : (hook.inverse ⟨p.wireName, none, false⟩ sealed).mapError
        (ClauseError.hookFailed p.wireName) = .ok bytes := Except.mapError_ok.mpr h
    simp only [fromWireAsync, hid, hbytes, hresolve, hcall, Bind.bind, Except.bind]
  | async hook course =>
    have hcall : runAlone p.wireName false
        (.start hook.inverse course ⟨p.wireName, none, false⟩ sealed) = .ok bytes :=
      runAlone_ok (hr.2 _ _) h
    simp only [fromWireAsync, hid, hbytes, hresolve, hcall, Bind.bind, Except.bind]

/-- With a hook that is called at once it makes no difference whether there is time. -/
theorem fromWire_eq_fromWireAsync (hid : p.hook = some id)
    (hhook : codec.hooks.get? id = some hook) (hs : hook.isSync = true) (kind : ValueKind) :
    codec.fromWire w kind p = codec.fromWireAsync false w kind p := by
  have hresolve : codec.hooks.resolve p.wireName id = .ok hook :=
    HookRegistry.resolve_ok_iff.mpr hhook
  cases hook with
  | async => cases hs
  | sync hook => simp only [fromWire, fromWireAsync, hid, hresolve, Bind.bind, Except.bind]

/-- The bound value gives the same as the plain wire value of the property without its hook. -/
theorem BoundAs.opens {n : Nat} (h : codec.BoundAs entity ((v, p), n) w) (ho : v.InOrder)
    (hn : v.nesting ≤ 62) (hid : p.hook = some id) (hhook : codec.hooks.get? id = some hook)
    (hr : hook.Reversible) :
    ∃ plain, codec.toWire v p.unsealed = .ok plain ∧ ∀ kind,
      codec.ReadAlike (fun reader => reader.fromWireAsync false w kind p)
          (fun reader => reader.fromWire plain kind p.unsealed) ∧
        (hook.isSync = true → codec.ReadAlike (fun reader => reader.fromWire w kind p)
          fun reader => reader.fromWire plain kind p.unsealed) := by
  obtain ⟨plain, order, sealed, hplain, hsealed, rfl⟩ := h.sealed hid hhook
  have hopened : hook.hook.inverse ⟨p.wireName, none, false⟩ sealed = .ok (plain.payload order) :=
    hr.hook _ _ _ _ hsealed
  have hreadable : plain.Readable Json.maxDepth :=
    Value.encode_readable v ho (by omega : 2 * v.nesting ≤ 125) hplain
  have hhook' {reader : Codec} (h : codec.Reorders reader) : reader.hooks.get? id = some hook :=
    (h.hooks.get? id).trans hhook
  have hasync (kind : ValueKind) (reader : Codec) (h : codec.Reorders reader) :
      reader.fromWireAsync false (.binary sealed) kind p
        = reader.fromWire plain kind p.unsealed := by
    rw [fromWireAsync_sealed hid (hhook' h) hr hopened, decodeOpened_payload hreadable]
  refine ⟨plain, toWire_unsealed hplain, fun kind => ⟨.of_plain (hasync kind), fun hs => ?_⟩⟩
  exact .of_plain fun reader h =>
    (fromWire_eq_fromWireAsync hid (hhook' h) hs kind).trans (hasync kind reader h)

end Codec

/-! ## Clauses -/

namespace Compiler

/--
**What a clause has sealed can be opened.** A clause binds the values it is made of, each in
the way of a property. Where the property has a hook that opens what it has sealed, the wire
value that has been bound is read with this property as the value would be if there were no
hook, in whichever order maps were gone through when it was sealed. The value may nest as deep
as its JSON text is read.
-/
theorem sealed_values_open (c : Compiler) {mode : Mode} {source : Source} {s s' : Scope}
    {clause : Clause} (h : c.translate mode source s = .ok clause s') :
    ∃ bound, source.Binds (clause.attribute? s) bound ∧
      List.Forall₂ (fun (b : BoundValue × Nat) (t : String × WireValue) =>
        let v := b.1.1
        let p := b.1.2
        c.codec.BoundAs source.entity b t.2 ∧
        ∀ id hook, p.hook = some id → c.hooks.get? id = some hook → hook.Reversible →
          v.InOrder → v.nesting ≤ 62 →
          ∃ plain, c.codec.toWire v p.unsealed = .ok plain ∧ ∀ kind,
            c.codec.ReadAlike (fun reader => reader.fromWireAsync false t.2 kind p)
              (fun reader => reader.fromWire plain kind p.unsealed) ∧
            (hook.isSync = true → c.codec.ReadAlike (fun reader => reader.fromWire t.2 kind p)
              fun reader => reader.fromWire plain kind p.unsealed))
      bound.zipIdx clause.values := by
  obtain ⟨bound, hbound, hvalues⟩ := translate_binds h
  refine ⟨bound, hbound, hvalues.imp fun b t hb => ⟨hb, fun id hook hid hhook hr ho hn => ?_⟩⟩
  exact hb.opens ho hn hid hhook hr

/-! ### Seals that are opened, and seals that are not -/

/-- The mark of values that were sealed for an entity. -/
def entityMark (context : HookContext) : UInt8 := if context.entity.isSome then 1 else 0

/-- A hook that puts the mark in front and takes it away again, whatever it is. -/
def marking : Hook :=
  ⟨fun context bytes => .ok (entityMark context :: bytes), fun _ sealed => .ok sealed.tail⟩

theorem marking_reversible : marking.Reversible := by
  refine Hook.reversible_of_undoes ?_ fun _ _ _ => rfl
  intro context bytes sealed h
  cases h
  rfl

/-- A hook that takes the mark away only if it is the right one. -/
def checking : Hook :=
  ⟨fun context bytes => .ok (entityMark context :: bytes), fun context sealed =>
    if sealed.head? = some (entityMark context) then .ok sealed.tail
    else .error (.failed "sealed for another entity")⟩

/-- The property `email`, sealed by the hook that is called `seal`. -/
def sealedEmail : Property := ⟨"Email", "email", none, some "seal"⟩

/-- The property `home`, sealed by the hook that is called `vault`. -/
def sealedHome : Property := ⟨"Home", "home", none, some "vault"⟩

/-- Patients, of whom some things are sealed. -/
def patientSchema : Schema := ⟨"Patient", [("Email", sealedEmail), ("Home", sealedHome)]⟩

/-- A home with parts. -/
def home : Value := .map [("floor", .integer 2), ("names", .list [.text "Ada", .null])]

/-- A clause that sets both. -/
def moveHouse : Source :=
  .update patientSchema [.set "Home" (.operand (.value home)),
    .set "Email" (.ifNotExists "Email" (.value (.text "a@b.c")))]

theorem home_inOrder : home.InOrder := by
  have h : "floor" < "names" := by decide
  exact ⟨⟨List.forall_mem_singleton.mpr h, fun _ he =>
    absurd he List.not_mem_nil, trivial⟩, trivial,
    ⟨trivial, trivial, trivial⟩, trivial⟩

theorem moved_house_opens :
    let c : Compiler := ⟨.standard, { hooks := [("seal", .sync marking),
      ("vault", .async marking fun _ bytes => ⟨bytes.length, false⟩)] }⟩
    let bytesHome := 1 :: Text.toBytes ("\x7b\"M\":\x7b\"floor\":\x7b\"N\":\"2\"\x7d," ++
      "\"names\":\x7b\"L\":[\x7b\"S\":\"Ada\"\x7d,\x7b\"NULL\":true\x7d]\x7d\x7d\x7d")
    let bytesEmail := 1 :: Text.toBytes "\x7b\"S\":\"a@b.c\"\x7d"
    let clause : Clause := ⟨"SET #attr0 = :p0, #attr1 = if_not_exists(#attr2, :p1)",
      [("#attr0", "home"), ("#attr1", "email"), ("#attr2", "email")],
      [(":p0", .binary bytesHome), (":p1", .binary bytesEmail)]⟩
    c.translate (.async false) moveHouse c.scope
        = .ok clause (c.scope.enter clause.names clause.values) ∧
      c.codec.fromWireAsync false (.binary bytesHome) .map sealedHome = .ok home ∧
      (∀ reader, c.codec.Reorders reader →
        (reader.fromWireAsync false (.binary bytesHome) .map sealedHome).toOption = some home) ∧
      c.codec.fromWire (.binary bytesEmail) .text sealedEmail = .ok (.text "a@b.c") := by
  intro c bytesHome bytesEmail clause
  have h : c.translate (.async false) moveHouse c.scope
      = .ok clause (c.scope.enter clause.names clause.values) := by
    decide +kernel
  obtain ⟨bound, hbound, hvalues⟩ := sealed_values_open c h
  have hb : bound = [(home, sealedHome), (.text "a@b.c", sealedEmail)] := hbound.trans (rfl)
  rw [hb] at hvalues
  cases hvalues with | cons hhome hrest =>
  cases hrest with | cons hemail _ =>
  obtain ⟨plain, hplain, hopens⟩ := hhome.2 "vault" _ rfl rfl ⟨marking_reversible, fun _ _ => rfl⟩
    home_inOrder (by decide)
  have hw : c.codec.toWire home sealedHome.unsealed
      = .ok (.map [("floor", .number "2"), ("names", .list [.text "Ada", .null true])]) := by
    decide +kernel
  cases hw.symm.trans hplain
  obtain ⟨plain, hplain, hopens'⟩ :=
    hemail.2 "seal" _ rfl rfl marking_reversible trivial (by decide)
  have hw : c.codec.toWire (.text "a@b.c") sealedEmail.unsealed = .ok (.text "a@b.c") := by
    decide +kernel
  cases hw.symm.trans hplain
  exact ⟨h, ((hopens .map).1.same _ ⟨rfl, rfl⟩).trans (rfl),
    fun reader hr => ((hopens .map).1.other reader _ hr ⟨rfl, rfl⟩).trans (rfl),
    (((hopens' .text).2 rfl).same _ ⟨rfl, rfl⟩).trans (rfl)⟩

/-- The property `age`, sealed by the hook that is called `mirror`. -/
def sealedAge : Property := ⟨"Age", "age", none, some "mirror"⟩

/--
That a hook undoes its work in each context is not enough to open what it has sealed. A slot with a
format of its own seals its value in this format, which the property alone does not have. And a
clause is sealed for an entity, but opened for none.
-/
theorem seals_not_opened :
    let c : Compiler :=
      ⟨.standard, { hooks := [("mirror", .sync .mirroring), ("seal", .sync checking)] }⟩
    let schema : Schema := ⟨"Patient", [("Age", sealedAge), ("Email", sealedEmail)]⟩
    let s := c.scope.enter [("#attr0", "age")] []
    let template : Source := .template .filter "#attr0 = \x7b0:D4\x7d" [.integer 7] (some schema)
    let predicate : Source :=
      .predicate .filter schema (.compare (.property "Email") .equal [.value (.text "a@b.c")])
    let boundAge : WireValue := .binary (Text.toBytes "\x7d\"7000\":\"S\"\x7b")
    let boundEmail : WireValue := .binary (1 :: Text.toBytes "\x7b\"S\":\"a@b.c\"\x7d")
    (∀ hook ∈ [.mirroring, checking], ∀ context bytes, ∃ sealed,
      hook.transform context bytes = .ok sealed ∧ hook.inverse context sealed = .ok bytes) ∧
    (c.translate .sync template s
        = .ok ⟨"#attr0 = :p0", [], [(":p0", boundAge)]⟩ (s.enter [] [(":p0", boundAge)]) ∧
      c.codec.fromWire boundAge .integer sealedAge = .error (.typeMismatch "age" .integer .text) ∧
      (c.codec.toWire (.integer 7) sealedAge.unsealed >>= fun plain =>
        c.codec.fromWire plain .integer sealedAge.unsealed) = .ok (.integer 7)) ∧
    (c.translate .sync predicate s
        = .ok ⟨"#attr1 = :p0", [("#attr1", "email")], [(":p0", boundEmail)]⟩
            (s.enter [("#attr1", "email")] [(":p0", boundEmail)]) ∧
      c.codec.fromWire boundEmail .text sealedEmail
        = .error (.hookFailed "email" (.failed "sealed for another entity")) ∧
      (c.codec.toWire (.text "a@b.c") sealedEmail.unsealed >>= fun plain =>
        c.codec.fromWire plain .text sealedEmail.unsealed) = .ok (.text "a@b.c")) := by
  intro c schema s template predicate boundAge boundEmail
  refine ⟨?_, ⟨?_, ?_, ?_⟩, ?_, ?_, ?_⟩
  · rw [List.forall_mem_cons, List.forall_mem_singleton]
    constructor
    · exact fun context bytes => ⟨bytes.reverse, rfl, congrArg Except.ok bytes.reverse_reverse⟩
    · exact fun context bytes => ⟨entityMark context :: bytes, rfl, if_pos rfl⟩
  · decide +kernel
  · have hopened : WireValue.ofJson (Text.toBytes "\x7d\"7000\":\"S\"\x7b").reverse
        = .ok (.text "0007") := by
      decide +kernel
    change c.codec.decodeOpened .integer sealedAge (Text.toBytes _).reverse = _
    rw [Codec.decodeOpened, hopened]
    rfl
  · rfl
  · decide +kernel
  · rfl
  · rfl

end Compiler

end Clauses
