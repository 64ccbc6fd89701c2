import Clauses.Proofs.Reuse

/-!
# Hooks that leave no trace

A value with a hook goes a long way: it is written to the wire, its wire value to JSON bytes, these
are sealed, opened and read again. Without the hook it is written to the wire and read from there.
If the hook opens what it has sealed in the same circumstances, both ways end alike.

* The first step is the same on both ways. Where it fails, it fails before the hook is called.
* The JSON text of what has been written is read back as it was, in whichever order the entries of
  its maps stand, so that the last step is the same too.
* In the last step the maps are gone through in some order, and it may be another one on each way.
  That tells which of several bad entries is complained about, but not whether there is one.

* `Hook.Undoes` — the hook seals everything, and opens it in the circumstances in which it was
  sealed
* `Codec.hook_leaves_no_trace` — so both ways end in the same value, or in the same error
-/

namespace Clauses

/-- The hook never refuses to seal, and opens what it has sealed in the same circumstances. -/
def Hook.Undoes (hook : Hook) : Prop :=
  ∀ context bytes, ∃ sealed, hook.transform context bytes = .ok sealed ∧
    hook.inverse context sealed = .ok bytes

namespace Codec

variable {codec : Codec} {v : Value} {p : Property} {id : String} {hook : Hook}

/-- What cannot be written to the wire is refused, whether it is to be sealed or not. -/
theorem toWire_of_error {e : ClauseError}
    (h : v.encode codec.dateFormat p.wireName p.format = .error e) :
    codec.toWire v p = .error e := by
  rw [toWire, bind, h]
  rfl

/-- What has been written to the wire is sealed. -/
theorem toWire_sealed {plain : WireValue} {sealed : Bytes}
    (h : v.encode codec.dateFormat p.wireName p.format = .ok plain) (hid : p.hook = some id)
    (hhook : codec.hooks.get? id = some (.sync hook))
    (hsealed : hook.transform ⟨p.wireName, none, false⟩ (plain.payload (codec.hooks.writing 0))
      = .ok sealed) :
    codec.toWire v p = .ok (.binary sealed) :=
  toWire_ok_iff.mpr <| bind_ok_iff.mpr ⟨plain, h, .inr ⟨id, _, hid, hhook, .now hsealed⟩⟩

/-- What the hook has opened is read. -/
theorem fromWire_sealed {sealed bytes : Bytes} (hid : p.hook = some id)
    (hhook : codec.hooks.get? id = some (.sync hook))
    (h : hook.inverse ⟨p.wireName, none, false⟩ sealed = .ok bytes) (kind : ValueKind) :
    codec.fromWire (.binary sealed) kind p = codec.decodeOpened kind p bytes := by
  have hbytes : sealedBytes p.wireName (.binary sealed) = .ok sealed := rfl
  have hresolve : codec.hooks.resolve p.wireName id = .ok (.sync hook) :=
    HookRegistry.resolve_ok_iff.mpr hhook
  have hcall : (hook.inverse ⟨p.wireName, none, false⟩ sealed).mapError
      (ClauseError.hookFailed p.wireName) = .ok bytes := Except.mapError_ok.mpr h
  simp only [fromWire, hid, hbytes, hresolve, hcall, Bind.bind, Except.bind]

/--
**A hook that undoes its work leaves no trace.** Writing a value and reading it again, as a value of
any type, gives the same with the hook of its property as without: the same value, or an error. It
is the same error if it is the writing that fails, and also if it is the reading, unless maps are
gone through in another order on each way. All that the hook is seen by is that a binary is bound.
The value may nest as deep as its JSON text is read.
-/
theorem hook_leaves_no_trace (codec : Codec) (hid : p.hook = some id)
    (hhook : codec.hooks.get? id = some (.sync hook)) (hundoes : hook.Undoes) (ho : v.InOrder)
    (hn : v.nesting ≤ 62) :
    (∀ e, codec.toWire v p = .error e ↔ codec.toWire v p.unsealed = .error e) ∧
    (∀ kind, codec.ReadAlike
      (fun reader => codec.toWire v p >>= fun w => reader.fromWire w kind p)
      fun reader => codec.toWire v p.unsealed >>= fun w => reader.fromWire w kind p.unsealed) ∧
    ∀ w, codec.toWire v p = .ok w → ∃ sealed, w = .binary sealed := by
  cases hplain : v.encode codec.dateFormat p.wireName p.format with
  | error e =>
    have hboth : codec.toWire v p = .error e ∧ codec.toWire v p.unsealed = .error e :=
      ⟨toWire_of_error hplain, toWire_of_error hplain⟩
    rw [hboth.1, hboth.2]
    exact ⟨fun _ => Iff.rfl, fun _ => ⟨fun _ _ => rfl, fun _ _ _ _ => rfl⟩, fun _ h => nomatch h⟩
  | ok plain =>
    obtain ⟨sealed, hsealed, hopened⟩ :=
      hundoes ⟨p.wireName, none, false⟩ (plain.payload (codec.hooks.writing 0))
    have hreadable : plain.Readable Json.maxDepth :=
      Value.encode_readable v ho (by omega : 2 * v.nesting ≤ 125) hplain
    rw [toWire_sealed hplain hid hhook hsealed, toWire_unsealed hplain]
    refine ⟨fun e => ⟨nofun, nofun⟩, fun kind => .of_plain fun reader hreader => ?_,
      fun w h => ⟨sealed, (Except.ok.inj h).symm⟩⟩
    have hhook' : reader.hooks.get? id = some (.sync hook) := (hreader.hooks.get? id).trans hhook
    calc reader.fromWire (.binary sealed) kind p
        = reader.decodeOpened kind p (plain.payload (codec.hooks.writing 0)) :=
          fromWire_sealed hid hhook' hopened kind
      _ = reader.fromWire plain kind p.unsealed := decodeOpened_payload hreadable _ kind

/-! ### A hook that is not seen -/

theorem mirroring_undoes : Hook.mirroring.Undoes :=
  fun _ bytes => ⟨bytes.reverse, rfl, congrArg Except.ok bytes.reverse_reverse⟩

/-- A home, written backwards with its numbers in four digits. -/
def mirroredHome : Property := ⟨"Home", "home", some "D4", some "mirror"⟩

theorem mirrored_home_unchanged :
    let codec : Codec := ⟨none, { hooks := [("mirror", .sync .mirroring)] }⟩
    (codec.toWire Compiler.home mirroredHome >>= fun w => codec.fromWire w .map mirroredHome)
        = .ok (.map [("floor", .text "0002"), ("names", .list [.text "Ada", .null])]) ∧
      (codec.toWire Compiler.home mirroredHome >>= fun w => codec.fromWire w .integer mirroredHome)
        = .error (.typeMismatch "home" .integer .map) ∧
      ∀ reader, codec.Reorders reader →
        (codec.toWire Compiler.home mirroredHome >>= fun w =>
            reader.fromWire w .map mirroredHome).toOption
          = some (.map [("floor", .text "0002"), ("names", .list [.text "Ada", .null])]) := by
  intro codec
  obtain ⟨-, h, -⟩ := codec.hook_leaves_no_trace (p := mirroredHome) rfl rfl mirroring_undoes
    Compiler.home_inOrder (by decide)
  exact ⟨((h .map).same _ ⟨rfl, rfl⟩).trans (rfl),
    ((h .integer).same _ ⟨rfl, rfl⟩).trans (rfl),
    fun reader hr => ((h .map).other reader _ hr ⟨rfl, rfl⟩).trans (rfl)⟩

end Codec

end Clauses
