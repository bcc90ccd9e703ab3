import Microcode.Inspector.Report

def main (arguments : List String) : IO UInt32 := do
  let response := Microcode.Inspector.respond Microcode.standardTable Microcode.opcodeMap arguments
  IO.print response.output
  IO.eprint response.complaint
  return response.exitCode
