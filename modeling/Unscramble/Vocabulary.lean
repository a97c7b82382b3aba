import Unscramble.Text.Case
import Unscramble.Text.Split

/-! The words that scripts are made of, in their usual spelling: names of commands, types and
members, the aliases of commands, and the automatic variables. Every look-up ignores the case of
ASCII letters and takes the first entry that fits. -/
namespace Unscramble.Vocabulary

def barewords : List String := [
    "Add-Content", "Add-Member", "Add-Type", "Clear-Host", "Compare-Object", "ConvertFrom-Json",
    "ConvertTo-Json", "ConvertTo-SecureString", "Copy-Item", "Export-Csv", "ForEach-Object",
    "Format-List", "Format-Table", "Get-ChildItem", "Get-Command", "Get-Content", "Get-Date",
    "Get-Item", "Get-ItemProperty", "Get-Location", "Get-Member", "Get-Process", "Get-Random",
    "Get-Service", "Get-Variable", "Get-WmiObject", "Get-CimInstance", "Import-Module",
    "Invoke-Command", "Invoke-Expression", "Invoke-Item", "Invoke-RestMethod",
    "Invoke-WebRequest", "Measure-Object", "Move-Item", "New-Item", "New-Object", "New-Variable",
    "Out-File", "Out-Null", "Out-String", "Read-Host", "Remove-Item", "Remove-Variable",
    "Rename-Item", "Select-Object", "Select-String", "Set-Content", "Set-ExecutionPolicy",
    "Set-Item", "Set-ItemProperty", "Set-Location", "Set-Variable", "Sort-Object", "Split-Path",
    "Start-Job", "Start-Process", "Start-Sleep", "Stop-Process", "Test-Connection", "Test-Path",
    "Where-Object", "Write-Error", "Write-Host", "Write-Output", "Write-Verbose", "Write-Warning",
    "Join-Path", "Add", "Clear", "Compare", "ConvertFrom", "ConvertTo", "Copy", "Export",
    "ForEach", "Format", "Get", "Import", "Invoke", "Join", "Measure", "Move", "New", "Out",
    "Read", "Remove", "Rename", "Select", "Set", "Sort", "Split", "Start", "Stop", "Test",
    "Where", "Write", "ChildItem", "Command", "Content", "Date", "Expression", "Host", "Item",
    "ItemProperty", "Location", "Member", "Module", "Null", "Object", "Output", "Path", "Process",
    "Random", "RestMethod", "Service", "Sleep", "String", "Variable", "WebRequest", "System",
    "Text", "Encoding", "ASCII", "UTF8", "Unicode", "Convert", "IO", "File", "Directory",
    "MemoryStream", "StreamReader", "Compression", "GZipStream", "DeflateStream",
    "CompressionMode", "Net", "WebClient", "Management", "Automation", "PSObject", "Runtime",
    "InteropServices", "Marshal", "Reflection", "Assembly", "Security", "Cryptography",
    "Environment", "Math", "Char", "Byte", "Int32", "Int64", "Array", "Diagnostics",
    "ProcessStartInfo", "Type", "ScriptBlock", "FromBase64String", "ToBase64String", "GetString",
    "GetBytes", "Invoke", "Replace", "Split", "Substring", "ToCharArray", "ToLower", "ToUpper",
    "ToString", "Trim", "TrimStart", "TrimEnd", "Reverse", "Length", "Count", "DownloadString",
    "DownloadFile", "DownloadData", "ReadToEnd", "Create", "InvokeScript", "ExecutionContext",
    "InvokeCommand", "NewScriptBlock", "GetMethod", "GetField", "GetValue", "SetValue",
    "Decompress", "Load", "Insert", "IndexOf", "Contains", "StartsWith", "EndsWith", "Bypass",
    "Hidden", "NoProfile", "NonInteractive", "Force", "ExecutionPolicy", "WindowStyle",
    "EncodedCommand", "TypeName", "ArgumentList", "FilePath", "ComObject", "Name", "Value",
    "Scope"]

def aliases : List (String × String) := [
    ("%", "ForEach-Object"), ("?", "Where-Object"), ("ac", "Add-Content"), ("cat", "Get-Content"),
    ("cd", "Set-Location"), ("chdir", "Set-Location"), ("clc", "Clear-Content"),
    ("cls", "Clear-Host"), ("copy", "Copy-Item"), ("cp", "Copy-Item"), ("del", "Remove-Item"),
    ("dir", "Get-ChildItem"), ("echo", "Write-Output"), ("erase", "Remove-Item"),
    ("foreach", "ForEach-Object"), ("gc", "Get-Content"), ("gci", "Get-ChildItem"),
    ("gcm", "Get-Command"), ("gi", "Get-Item"), ("gl", "Get-Location"), ("gm", "Get-Member"),
    ("gp", "Get-ItemProperty"), ("gps", "Get-Process"), ("gsv", "Get-Service"),
    ("gv", "Get-Variable"), ("gwmi", "Get-WmiObject"), ("icm", "Invoke-Command"),
    ("iex", "Invoke-Expression"), ("ii", "Invoke-Item"), ("ipmo", "Import-Module"),
    ("irm", "Invoke-RestMethod"), ("iwr", "Invoke-WebRequest"), ("kill", "Stop-Process"),
    ("ls", "Get-ChildItem"), ("measure", "Measure-Object"), ("mi", "Move-Item"),
    ("move", "Move-Item"), ("mv", "Move-Item"), ("ni", "New-Item"), ("nv", "New-Variable"),
    ("ps", "Get-Process"), ("pwd", "Get-Location"), ("rd", "Remove-Item"), ("ri", "Remove-Item"),
    ("rm", "Remove-Item"), ("rmdir", "Remove-Item"), ("rv", "Remove-Variable"),
    ("sal", "Set-Alias"), ("saps", "Start-Process"), ("sc", "Set-Content"),
    ("select", "Select-Object"), ("set", "Set-Variable"), ("si", "Set-Item"),
    ("sl", "Set-Location"), ("sleep", "Start-Sleep"), ("sort", "Sort-Object"),
    ("sp", "Set-ItemProperty"), ("spps", "Stop-Process"), ("start", "Start-Process"),
    ("sv", "Set-Variable"), ("type", "Get-Content"), ("where", "Where-Object"),
    ("write", "Write-Output")]

/-- Automatic and preference variables, with the default value of those that have the same one
everywhere. -/
def specialVariables : List (String × Option String) := [
    ("$", none), ("?", none), ("^", none), ("_", none), ("args", none),
    ("ConfirmPreference", some "High"), ("ConsoleFileName", none),
    ("DebugPreference", some "SilentlyContinue"), ("Error", none),
    ("ErrorActionPreference", some "Continue"), ("ErrorView", some "NormalView"),
    ("ExecutionContext", none), ("false", none), ("foreach", none),
    ("FormatEnumerationLimit", some "4"), ("HOME", none), ("Host", none), ("input", none),
    ("LASTEXITCODE", none), ("MaximumAliasCount", some "4096"),
    ("MaximumDriveCount", some "4096"), ("MaximumErrorCount", some "256"),
    ("MaximumFunctionCount", some "4096"), ("MaximumHistoryCount", some "4096"),
    ("MaximumVariableCount", some "4096"), ("Matches", none), ("MyInvocation", none),
    ("NestedPromptLevel", none), ("null", none), ("OutputEncoding", none), ("PID", none),
    ("PROFILE", none), ("ProgressPreference", some "Continue"), ("PSBoundParameters", none),
    ("PSCommandPath", none), ("PSCulture", none), ("PSDefaultParameterValues", none),
    ("PSEmailServer", none), ("PSItem", none),
    ("PSHOME", some "C:\\Windows\\System32\\WindowsPowerShell\\v1.0"), ("PSScriptRoot", none),
    ("PSSessionApplicationName", some "wsman"),
    ("PSSessionConfigurationName", some "http://schemas.microsoft.com/powershell/Microsoft.PowerShell"),
    ("PSUICulture", none), ("PSVersionTable", none), ("PWD", none),
    ("ShellId", some "Microsoft.PowerShell"), ("StackTrace", none), ("switch", none),
    ("this", none), ("true", none), ("VerbosePreference", some "SilentlyContinue"),
    ("WarningPreference", some "Continue"), ("WhatIfPreference", some "False"),
    ("env:ComSpec", some "C:\\Windows\\system32\\cmd.exe"),
    ("env:PUBLIC", some "C:\\Users\\Public"), ("env:SystemRoot", some "C:\\Windows"),
    ("env:windir", some "C:\\Windows"), ("env:ProgramData", some "C:\\ProgramData")]

def bareword? (word : String) : Option String := barewords.find? (Text.sameIgnoringCase · word)

def aliasTarget? (word : String) : Option String :=
  (aliases.find? fun entry => Text.sameIgnoringCase entry.1 word).map (·.2)

def specialVariable? (name : String) : Option String :=
  (specialVariables.find? fun entry => Text.sameIgnoringCase entry.1 name).map (·.1)

def specialValue? (name : String) : Option String :=
  (specialVariables.find? fun entry => Text.sameIgnoringCase entry.1 name).bind (·.2)

/-- Whether a variable's name says which drive or scope it belongs to. -/
def isQualified (path : String) : Bool := path.toList.contains ':'

/-- Variables that scripts do not own: automatic and qualified ones. -/
def isAmbient (path : String) : Bool := isQualified path || (specialVariable? path).isSome

/-- Every segment between two separators in its usual spelling, if it has one. -/
def recase (separator : Char) (s : List Char) : List Char :=
  Text.join [separator] <| (Text.splitWhere (· == separator) s).map fun segment =>
    ((bareword? (String.ofList segment)).map String.toList).getD segment

/-- A name with every segment in its usual spelling. Square brackets around it stay. -/
def canonicalCase (word : String) : String :=
  let spell (s : List Char) : List Char := recase '-' (recase '.' s)
  match (Text.dropStart? ['['] word.toList).bind (Text.dropEnd? [']']) with
  | some inner => String.ofList ('[' :: spell inner ++ [']'])
  | none => String.ofList (spell word.toList)

end Unscramble.Vocabulary
