import ScriptHost.Proofs.Engine
import ScriptHost.Samples

/-! The sample host functions are put together from the parts of an exchange alone, so they are lawful. -/

namespace ScriptHost.Samples

open Number Exchange

theorem onNumber_composed (f : Double → Double) : (onNumber f).Composed := by
  apply Composed.bind (args_composed _)
  intro vs
  split <;> exact returns_composed _

theorem ping_composed : ping.Composed := .bind (args_composed _) fun _ => returns_composed _

theorem swap_composed : swap.Composed := by
  apply Composed.bind (args_composed _)
  intro vs
  split <;> exact returns_composed _

theorem concat3_composed : concat3.Composed := by
  apply Composed.bind (args_composed _)
  intro vs
  split <;> exact returns_composed _

theorem negate_composed : negate.Composed := by
  apply Composed.bind (args_composed _)
  intro vs
  split <;> exact returns_composed _

theorem echo_composed (kind : Host.Kind) : (echo kind).Composed :=
  .bind (args_composed _) fun _ => returns_composed _

theorem addToValue_composed : addToValue.Composed := by
  apply Composed.bind (args_composed _)
  intro vs
  split
  · exact .bind (ofExcept_composed _) fun t => returns_composed _
  · exact returns_composed _

theorem count_composed : count.Composed := by
  apply Composed.bind depth_composed
  intro d
  exact .bind (push_composed _) fun _ => .pure _

theorem nothing_composed : nothing.Composed := .bind (push_composed _) fun _ => .pure _

theorem refuseKind_composed : refuseKind.Composed := .bind peek_composed fun _ => .fail _

theorem apply_composed : apply.Composed := by
  apply Composed.bind (args_composed _)
  intro vs
  split
  · apply Composed.bind (pushFunction_composed _)
    intro _
    apply Composed.bind (push_composed _)
    intro _
    apply Composed.bind (protectedCall_composed _ _)
    intro r
    split
    · exact .pure _
    · exact .fail _
  · exact returns_composed _

theorem callback_composed : callback.Composed := by
  apply Composed.bind (args_composed _)
  intro vs
  split
  · apply Composed.bind (runFunction_composed _ _ _)
    intro ws
    split <;> exact returns_composed _
  · exact returns_composed _

theorem getNumber_composed : getNumber.Composed := by
  apply Composed.bind (args_composed _)
  intro vs
  split
  · exact .bind (getGlobal_composed _ _) fun v => returns_composed _
  · exact returns_composed _

theorem putGlobal_composed : putGlobal.Composed := by
  apply Composed.bind (args_composed _)
  intro vs
  split
  · exact .bind (setGlobal_composed _ _) fun _ => returns_composed _
  · exact returns_composed _

theorem installDouble_composed : installDouble.Composed := by
  apply Composed.bind (args_composed _)
  intro vs
  split
  · exact .bind (registerFunction_composed _ _ _) fun _ => returns_composed _
  · exact returns_composed _

theorem sumSequence_composed : sumSequence.Composed := by
  apply Composed.bind (args_composed _)
  intro vs
  split
  · extract_lets visited
    split
    · exact .stop _
    · exact returns_composed _
  · exact returns_composed _

theorem popTwo_composed : popTwo.Composed := by
  apply Composed.bind (popSlot_composed _ _)
  intro b
  apply Composed.bind (popSlot_composed _ _)
  intro a
  split <;> exact returns_composed _

theorem eight_composed : eight.Composed := by
  apply Composed.bind (args_composed _)
  intro vs
  split <;> exact returns_composed _

theorem catalog_composed : catalog.Composed := by
  intro f
  unfold catalog
  split
  · exact onNumber_composed _
  · exact onNumber_composed _
  · exact onNumber_composed _
  · exact concat3_composed
  · exact negate_composed
  · exact ping_composed
  · exact swap_composed
  · exact echo_composed _
  · exact echo_composed _
  · exact addToValue_composed
  · exact count_composed
  · exact .pure _
  · exact depth_composed
  · exact nothing_composed
  · exact .bind depth_composed fun _ => .pure _
  · exact .fail _
  · exact refuseKind_composed
  · exact apply_composed
  · exact callback_composed
  · exact getNumber_composed
  · exact putGlobal_composed
  · exact installDouble_composed
  · exact sumSequence_composed
  · exact popTwo_composed
  · exact eight_composed
  · exact .fail _

theorem catalog_lawful : catalog.Lawful := catalog_composed.lawful

end ScriptHost.Samples
