import DocComments.Text

/-! Cues about the purpose of a file, read off its whole text once. -/

namespace DocComments

structure FileCues where
  /-- The file is about converters between values. -/
  converterModule : Bool
  /-- The file holds helpers. -/
  helperModule : Bool
  /-- The file's types convert values for data binding. -/
  valueConverter : Bool
  deriving DecidableEq, Repr

namespace FileCues

def ofText (text : Text) : FileCues where
  converterModule :=
    Text.occursIn "Converters".toList text || Text.occursIn "IValueConverter".toList text
  helperModule := Text.occursIn "Helpers".toList text
  valueConverter :=
    Text.occursIn "IValueConverter".toList text || Text.occursIn "System.Windows.Data".toList text

end FileCues

end DocComments
