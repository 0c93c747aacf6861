/-
Blocks: work done under a configuration of its own, and work whose cost
is counted.

Blocks nest in any way. Whatever the work does, and also when it fails,
the configuration and the counters that were active before the block are
active after it.
-/
import Relex.Workspace.Act

namespace Relex.Workspace

/-- Work under a configuration of its own. -/
def underConfig {α : Type} (config : Config) (work : Act α) : Act α :=
  Act.of fun ws =>
    let (result, ws) := work.on
      { ws with config := ws.config.enter config }
    (result, { ws with config := ws.config.leave })

/-- Work under a configuration, if one is given. -/
def underConfig? {α : Type} (config : Option Config) (work : Act α) :
    Act α :=
  match config with
  | none => work
  | some config => underConfig config work

/-- Changes which counters are active. -/
def onMeters (ws : Workspace) (f : Meters → Meters) : Workspace :=
  { ws with trace := { ws.trace with meters := f ws.trace.meters } }

/-- Work whose cost is counted. Answers what came of the work, a fault
included, and the counters. -/
def metered {α : Type} (work : Act α) :
    Act (Except Fault α × Metrics) :=
  Act.of fun ws =>
    let (result, ws) := work.on (ws.onMeters (·.enter))
    (.ok (result, (ws.trace.meters.active?).getD .zero),
      ws.onMeters (·.leave))

end Relex.Workspace
