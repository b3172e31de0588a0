import UnitLoader.Lang.Toolchain
import UnitLoader.Proofs.Lasting
import UnitLoader.Proofs.Linking

/-! Sessions of the plain language. Analysis in this language only adds to what is known
of the modules, so the session resolves specifiers in one way from start to end. -/

namespace UnitLoader

/-- Analysis changes nothing about how specifiers are resolved. -/
def Toolchain.KeepsResolver {Tree Value : Type} (tools : Toolchain Tree Value) : Prop :=
  ∀ targets p, (tools.analyze targets p).value.resolver = p.resolver

variable {Listener : Type}

theorem Linking.resolver_analyze (targets : List (Target Program)) (p : Project) :
    (Linking.analyze targets p).value.resolver = p.resolver :=
  resolver_foldl targets ⟨p, []⟩

theorem Lang.keepsResolver_toolchain [Text.Xid] : Lang.toolchain.KeepsResolver :=
  Linking.resolver_analyze

namespace Session

theorem Turns.resolver_of_keeps {Tree Value : Type} {s t : Session Tree Value Listener}
    (h : Turns s t) (keeps : s.tools.KeepsResolver) : t.project.resolver = s.project.resolver := by
  have hanalysis : s.analysis.value.resolver = s.project.resolver := keeps _ _
  cases h with
  | still still => exact still.resolver
  | reads unit loaded sound reads still => exact still.resolver.trans reads.resolver
  | stops ready falls still => exact still.resolver.trans hanalysis
  | executes executes still ends => exact still.resolver.trans hanalysis

variable {s t : Session Program Value Listener}

theorem resolver_analysis [Text.Xid] (plain : s.tools = Lang.toolchain) :
    s.analysis.value.resolver = s.project.resolver := by
  rw [analysis, plain]
  exact Lang.keepsResolver_toolchain _ _

theorem Turns.resolver [Text.Xid] (h : Turns s t) (plain : s.tools = Lang.toolchain) :
    t.project.resolver = s.project.resolver :=
  h.resolver_of_keeps (plain ▸ Lang.keepsResolver_toolchain)

theorem Turns.tools {Tree Value : Type} {s t : Session Tree Value Listener} (h : Turns s t) :
    t.tools = s.tools := by
  cases h with
  | still still => exact still.tools
  | reads unit loaded sound reads still =>
    rw [still.tools, reads.same]
  | stops ready falls still => exact still.tools
  | executes executes still ends => exact still.tools

/-- A session of the plain language that resolves specifiers in a given way. -/
structure Plain [Text.Xid] (resolver : Resolver) (s : Session Program Value Listener) : Prop where
  tools : s.tools = Lang.toolchain
  resolver : s.project.resolver = resolver

end Session

theorem lasting_tools {Tree Value : Type} (tools : Toolchain Tree Value) :
    Lasting fun s : Session Tree Value (UnitLoader.Listener Value) => s.tools = tools where
  still := fun _ _ hs hstill _ => hstill.tools.trans hs
  gains := fun _ _ _ _ hs hgains _ _ => hgains.tools.trans hs
  moves := fun _ _ hm hs hmove => (hmove.turns hm).tools.trans hs

theorem lasting_plain [Text.Xid] (resolver : Resolver) :
    Lasting fun s : Session Program Value (UnitLoader.Listener Value) => s.Plain resolver where
  still := fun s t hs hstill _ => by
    exact ⟨hstill.tools.trans hs.tools, hstill.resolver.trans hs.resolver⟩
  gains := fun s t w _ hs hgains _ _ =>
    ⟨hgains.tools.trans hs.tools, hgains.resolver.trans hs.resolver⟩
  moves := fun m n hm hs hmove =>
    have hturns := hmove.turns hm
    ⟨hturns.tools.trans hs.tools, (hturns.resolver hs.tools).trans hs.resolver⟩

end UnitLoader
