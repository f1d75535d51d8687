import BugMuseum.Cascade.TemplateText

namespace BugMuseum
namespace Cascade

open Foundation

/-!
# The delivery of a template

Resolution admits a text of up to 511 bytes, and the caller's buffer takes 255 of them.
Between the two, the text goes through `line`, which has room for 127.  So a longer text
never arrives, whatever the length of the template: it is made long by the values that
the template refers to.
-/

/-- The key that a GET looks up: the payload, cut at 255 bytes and at its
first zero byte. -/
def getKey (payload : Bytes) : CStr :=
  .ofBlock (payload.take 255 ++ [0])

/-- The lookup of a GET stays in its buffer and finds the entry. -/
structure GetFinds (env : ServiceEnv) (p : CfgProfile) (payload : Bytes) (e : CfgEntry) : Prop where
  inBuffer : ¬ (32 < (getKey payload).1.length ∧ (getKey payload).1.length < 64)
  found : cfgLookup (some p) (some (getKey payload)) env.norm = .found e

/-- The text arrives up to its 255th byte: in the caller's buffer, whatever
that held, and in the reply to a GET; and on a push the template does not stop
the others. -/
structure Delivered (p : CfgProfile) (e : CfgEntry) (text : Bytes) : Prop where
  expands : forall out : Field 256, exists filled, cfgExpandTemplate p e out.1 = .ok (cfgOk, filled) ∧
    filled.length = 256 ∧ text.take 255 ++ [0] <+: filled
  get : forall env payload, GetFinds env p payload e ->
    handleGet env p payload = answer p (text.take 255 ++ ascii "\n")
  push : forall (out : Field 256) before after,
    materializeFrom p out.1 (before ++ e :: after) = materializeFrom p out.1 (before ++ after)

/-- `strncpy` fills the whole buffer: the text, and terminators behind it. -/
theorem deliver_eq {text out : Bytes} (size : out.length = 256) (short : text.length ≤ 255) :
    deliver text out = text ++ List.replicate (256 - text.length) 0 := by
  have padded : (text ++ List.replicate (255 - text.length) (0 : UInt8)).length = 255 := by
    rw [List.length_append, List.length_replicate, Nat.add_sub_cancel' short]
  have behind : (out.drop 255).length = 1 := by rw [List.length_drop, size]
  have last : 256 - text.length = 255 - text.length + 1 := by omega
  have room : (text ++ List.replicate (255 - text.length) (0 : UInt8)).length ≤ out.length := by omega
  have copied := overwrite_zero room
  rw [padded] at copied
  have terminated := @overwrite_append (text ++ List.replicate (255 - text.length) 0) (out.drop 255) [0] behind.ge
  rw [padded, List.length_singleton, List.drop_of_length_le behind.le, List.append_nil] at terminated
  rw [deliver, List.take_of_length_le short, copied, terminated, last, List.replicate_succ', List.append_assoc]

/-- The caller finds the text in its buffer, and nothing behind it. -/
theorem cString_deliver {text out : Bytes} (size : out.length = 256) (short : text.length ≤ 255)
    (clean : (0 : UInt8) ∉ text) : cString (deliver text out) = text := by
  have terminated : 256 - text.length = 255 - text.length + 1 := by omega
  rw [deliver_eq size short, terminated, List.replicate_succ, cString_append_zero clean]

def clearOut : Field 256 :=
  ⟨List.replicate 256 0, List.length_replicate⟩

section Template

variable {p : CfgProfile} {e : CfgEntry} {s text : Bytes}

/-- What `CfgExpandTemplate` makes of a resolved text without a NUL.  The
bound is that of `line`, in which the text is printed first. -/
theorem cfgExpandTemplate_resolved (valued : e.value = some s) (resolved : resolve p s = some text)
    (clean : (0 : UInt8) ∉ text) (out : Bytes) :
    cfgExpandTemplate p e out =
      if text.length < lineSize then .ok (cfgOk, deliver text out) else .error (.line text) := by
  rw [cfgExpandTemplate, valued]
  dsimp only
  rw [resolved]
  dsimp only
  rw [cString_clean clean]

/-- The loop of `materialize_templates` goes on behind a template that is
expanded. -/
theorem materializeFrom_passes {out : Bytes} (template : e.type = cfgTemplate) {result : Int × Bytes}
    (expands : cfgExpandTemplate p e out = .ok result) (before after : List CfgEntry) :
    materializeFrom p out (before ++ e :: after) = materializeFrom p out (before ++ after) := by
  induction before with
  | nil =>
      rw [List.nil_append, List.nil_append, materializeFrom, if_pos template, expands]
  | cons first rest inductionHypothesis =>
      rw [List.cons_append, List.cons_append, materializeFrom, materializeFrom, inductionHypothesis]

/-- The bound of `line` is a bound on the expansion, although the resolved
text may be a part of it only. -/
theorem resolved_length_iff (resolved : resolve p s = some text) :
    text.length < lineSize ↔ (expansion p s).length < lineSize := by
  have outcome := resolve_outcome p s
  have clear : Unobstructed p s := by
    by_contra obstructed
    exact Option.some_ne_none _ (resolved.symm.trans (outcome.2 obstructed))
  have built : text = (expansion p s).take (resolvedSize - 1) :=
    Option.some.inj (resolved.symm.trans (outcome.1 clear))
  have wider : lineSize ≤ resolvedSize - 1 := by decide
  rw [built, List.length_take]
  omega

/-- A template whose text resolves without a NUL is delivered exactly when its
whole expansion is shorter than `line`, the buffer of 128 bytes between the
resolved text and the caller's. -/
theorem delivered_iff (valued : e.value = some s) (template : e.type = cfgTemplate)
    (resolved : resolve p s = some text) (clean : (0 : UInt8) ∉ text) :
    Delivered p e text ↔ (expansion p s).length < lineSize := by
  have expanded := cfgExpandTemplate_resolved valued resolved clean
  rw [← resolved_length_iff resolved]
  constructor
  · intro delivered
    by_contra long
    rcases delivered.expands clearOut with ⟨filled, ok, _⟩
    rw [expanded, if_neg long] at ok
    cases ok
  · intro fits
    have short : text.length ≤ 255 := Nat.le_trans (Nat.le_of_lt fits) (by decide)
    have cut : text.take 255 = text := List.take_of_length_le short
    have expands : forall out : Bytes, cfgExpandTemplate p e out = .ok (cfgOk, deliver text out) := by
      intro out
      rw [expanded, if_pos fits]
    refine ⟨fun out => ⟨_, expands out.1, ?_, ?_⟩, ?_, ?_⟩
    · rw [deliver_eq out.2 short, List.length_append, List.length_replicate]
      omega
    · have terminated : 256 - text.length = 255 - text.length + 1 := by omega
      rw [deliver_eq out.2 short, cut, terminated, List.replicate_succ]
      exact ⟨List.replicate (255 - text.length) 0, by rw [List.append_assoc, List.singleton_append]⟩
    · intro env payload finds
      have found := finds.found
      have inBuffer := finds.inBuffer
      rw [getKey] at found inBuffer
      rw [handleGet, if_neg inBuffer, found]
      dsimp only
      rw [if_pos template, expands]
      dsimp only
      rw [cString_deliver env.out.2 short clean, cut]
    · intro out before after
      exact materializeFrom_passes template (expands out.1) before after

end Template

theorem welcomeProfile_delivered :
    Delivered welcomeProfile (lineEntry (ascii "hello ${name}")) (ascii "hello Ada") := by
  have resolved : resolve welcomeProfile (ascii "hello ${name}") = some (ascii "hello Ada") := rfl
  refine (delivered_iff rfl rfl resolved (by decide)).mpr ?_
  exact (resolved_length_iff resolved).mp (by decide)

def nameEntry (text : Bytes) : CfgEntry :=
  ⟨some (.ofBlock (ascii "name" ++ [0])), cfgStr, text.length, some text, 0, sized_self text⟩

def longName : CfgProfile :=
  { head := [nameEntry (List.replicate 64 65), lineEntry (ascii "${name}${name}")], count := 2 }

/-- The text of 128 bytes is resolved, and neither delivered nor passed by a
push. -/
theorem longName_notDelivered :
    resolve longName (ascii "${name}${name}") = some (List.replicate 128 65) ∧
      ¬ Delivered longName (lineEntry (ascii "${name}${name}")) (List.replicate 128 65) := by
  have resolved : resolve longName (ascii "${name}${name}") = some (List.replicate 128 65) := rfl
  refine ⟨resolved, fun delivered => ?_⟩
  have clean : (0 : UInt8) ∉ List.replicate 128 (65 : UInt8) := by
    intro member
    exact absurd (List.eq_of_mem_replicate member) (by decide)
  rcases delivered.expands clearOut with ⟨filled, ok, _⟩
  rw [cfgExpandTemplate_resolved rfl resolved clean, if_neg] at ok
  · cases ok
  · rw [List.length_replicate]
    decide

end Cascade
end BugMuseum
