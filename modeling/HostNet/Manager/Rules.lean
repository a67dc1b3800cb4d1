/-
Managing rules, and the saved configuration.

A rule is handled with its host bits cleared.  Of equal rules a chain holds one:
creating a rule that is there and deleting one that is not are errors.
-/

import HostNet.Manager.Basic

namespace HostNet.Manager

/-! ## Rules -/

/-- Appends a rule to a table. -/
def createRule (t : Table) (rule : Rule) : Action Site Rule := do
  let rule := rule.normalized
  Action.ofExcept rule.check
  Site.exclusively "create_traffic_rule" do
    let existing ← Site.onHost (Host.chainRules t rule.chain)
    if existing.contains rule then
      throw (.alreadyExists "traffic rule" (t.name ++ " " ++ rule.text))
    Site.onHost (Host.perform (.createRule t rule))
    return rule

/-- Deletes a rule from a table. -/
def deleteRule (t : Table) (rule : Rule) : Action Site Unit := do
  let rule := rule.normalized
  Action.ofExcept rule.check
  Site.exclusively "delete_traffic_rule" do
    let existing ← Site.onHost (Host.chainRules t rule.chain)
    if !existing.contains rule then
      throw (.notFound "traffic rule" (t.name ++ " " ++ rule.text))
    Site.onHost (Host.perform (.deleteRule t rule))

/-! ## The saved configuration -/

/-- Saves the configuration of the host. -/
def save : Action Site Unit :=
  Site.exclusively "save_configuration" do
    Site.onStore Store.save
    Site.publish .configurationSaved

/-- Brings the host to the backup configuration. -/
def restore : Action Site Unit :=
  Site.exclusively "restore_from_backup" do
    Site.onStore Store.restore
    Site.publish .backupRestored

/-- Brings the host back to the saved configuration. -/
def reset : Action Site Unit :=
  Site.exclusively "reset_changes" do
    Site.onStore Store.reset
    Site.publish .changesReset

/-- Whether the host differs from the saved configuration. -/
def isChanged : Action Site Bool :=
  Site.exclusively "has_unsaved_changes" (Site.onStore Store.isChanged)

end HostNet.Manager
