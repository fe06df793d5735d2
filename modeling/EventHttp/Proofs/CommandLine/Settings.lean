import EventHttp.CommandLine
import Mathlib.Data.List.Induction

/-! What options hold, setting by setting.  Of the settings that are made one after another only
the last of each flag counts, so those of different flags may change places. -/

namespace EventHttp

inductive Setting where
  | host (name : String)
  | port (n : Nat)
  | backlog (n : Int)
  | idleTimeout (limit : Option Nat)
  | workers (n : Nat)
  | maxConnections (n : Nat)
  | resources (root : String)
  | logLevel (filter : Option String)
  | edgeTriggered (on : Bool)
  | linger (on : Bool)
  | quiet (on : Bool)
  deriving DecidableEq, Repr

namespace Setting

def flag : Setting → Flag
  | host _ => .host
  | port _ => .port
  | backlog _ => .backlog
  | idleTimeout _ => .timeout
  | workers _ => .workers
  | maxConnections _ => .maxConnections
  | resources _ => .resources
  | logLevel _ => .logLevel
  | edgeTriggered _ => .levelTriggered
  | linger _ => .linger
  | quiet _ => .quiet

def apply (s : Setting) (o : Options) : Options :=
  match s with
  | host name => { o with config.host := name }
  | port n => { o with config.port := n }
  | backlog n => { o with config.backlog := n }
  | idleTimeout limit => { o with config.idleTimeout := limit }
  | workers n => { o with config.workers := n }
  | maxConnections n => { o with config.maxConnections := n }
  | resources root => { o with config.resources := root }
  | logLevel filter => { o with logLevel := filter }
  | edgeTriggered on => { o with config.edgeTriggered := on }
  | linger on => { o with config.linger := on }
  | quiet on => { o with quiet := on }

def last (made : List Setting) (t : Setting) : Setting :=
  (made.filter (·.flag = t.flag)).getLast?.getD t

end Setting

namespace Options

def settings (o : Options) : List Setting :=
  [.host o.config.host, .port o.config.port, .backlog o.config.backlog,
    .idleTimeout o.config.idleTimeout, .workers o.config.workers,
    .maxConnections o.config.maxConnections, .resources o.config.resources, .logLevel o.logLevel,
    .edgeTriggered o.config.edgeTriggered, .linger o.config.linger, .quiet o.quiet]

def override (o : Options) (made : List Setting) : Options :=
  made.foldl (fun o s => s.apply o) o

end Options

namespace Setting

variable {made : List Setting}

theorem flag_last (made : List Setting) (t : Setting) : (last made t).flag = t.flag := by
  unfold last
  cases hl : (made.filter (·.flag = t.flag)).getLast? with
  | none => rfl
  | some s => exact of_decide_eq_true (List.mem_filter.mp (List.mem_of_getLast? hl)).2

theorem last_concat (made : List Setting) (s t : Setting) :
    last (made ++ [s]) t = if t.flag = s.flag then s else last made t := by
  rw [last, List.filter_append]
  by_cases hf : t.flag = s.flag
  · have hone : [s].filter (·.flag = t.flag) = [s] := by simp [hf]
    rw [if_pos hf, hone, List.getLast?_concat, Option.getD_some]
  · have hnone : [s].filter (·.flag = t.flag) = [] := by simp [Ne.symm hf]
    rw [if_neg hf, hnone, List.append_nil, last]

end Setting

namespace Options

variable {o o' : Options}

theorem eq_of_settings_eq (h : o.settings = o'.settings) : o = o' := by
  obtain ⟨⟨host, port, backlog, edge, idle, workers, most, root, linger⟩, filter, quiet⟩ := o
  simp only [settings, List.cons.injEq, Setting.host.injEq, Setting.port.injEq,
    Setting.backlog.injEq, Setting.idleTimeout.injEq, Setting.workers.injEq,
    Setting.maxConnections.injEq, Setting.resources.injEq, Setting.logLevel.injEq,
    Setting.edgeTriggered.injEq, Setting.linger.injEq, Setting.quiet.injEq] at h
  obtain ⟨rfl, rfl, rfl, rfl, rfl, rfl, rfl, rfl, rfl, rfl, rfl, -⟩ := h
  rfl

theorem settings_apply (s : Setting) (o : Options) :
    (s.apply o).settings = o.settings.map fun t => if t.flag = s.flag then s else t := by
  cases s <;> rfl

theorem override_concat (o : Options) (made : List Setting) (s : Setting) :
    o.override (made ++ [s]) = s.apply (o.override made) := by
  rw [override, List.foldl_append]
  rfl

theorem settings_override (o : Options) (made : List Setting) :
    (o.override made).settings = o.settings.map (Setting.last made) := by
  induction made using List.reverseRecOn with
  | nil => exact (List.map_id _).symm
  | append_singleton made s ih =>
    rw [override_concat, settings_apply, ih, List.map_map]
    refine List.map_congr_left fun t _ => ?_
    rw [Function.comp_apply, Setting.flag_last, Setting.last_concat]

theorem override_congr {made made' : List Setting}
    (h : ∀ flag, made.filter (·.flag = flag) = made'.filter (·.flag = flag)) (o : Options) :
    o.override made = o.override made' := by
  refine eq_of_settings_eq ?_
  rw [settings_override, settings_override]
  refine List.map_congr_left fun t _ => ?_
  rw [Setting.last, h t.flag, Setting.last]

end Options
end EventHttp
