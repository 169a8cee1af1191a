import ReviewQuorum.Reconciler
import ReviewQuorum.Wire.Readiness

/-! # The written form of reports

What a reconciler reports and remembers is written and never read back: the report of a pass, the
answer of the gate, and the context of a change request. -/

namespace ReviewQuorum

/-- A report as JSON. -/
def Report.toJson (r : Report) : Json := .obj
  [("change_request", .str r.changeRequest), ("pass", Wire.ofNat r.pass),
    ("policy", Wire.encode r.policy), ("decisions", .arr (r.rulings.map Wire.encode)),
    ("tally", Wire.encode r.tally), ("readiness", Wire.encode r.readiness),
    ("replies", .arr (r.replies.map .str)), ("label_change", Wire.ofOption .bool r.labelChange),
    ("watermark", Wire.ofOption Wire.ofNat r.watermark)]

/-- An answer of the gate as JSON. -/
def GateAnswer.toJson : GateAnswer → Json
  | allowed => .obj [("gate", .str "allowed")]
  | blocked reason message =>
    .obj [("gate", .str "blocked"), ("reason", Wire.encode reason), ("message", .str message)]

/-- A context as JSON. -/
def Context.toJson (c : Context) : Json := .obj
  [("watermark", Wire.ofOption Wire.ofNat c.watermark),
    ("readiness", Wire.ofOption Wire.encode c.readiness),
    ("observed_ready", Wire.ofOption .bool c.observedReady), ("passes", Wire.ofNat c.passes)]

end ReviewQuorum
