/-!
The literal decoder of the source parser: the texts that quoted PHP literals stand for. Between
single quotes a backslash protects a backslash or a quote; between double quotes it also introduces
a few control characters. A backslash before anything else stands for itself. Left out are numeric
escapes, which the decoder passes on as they stand.
-/
namespace HandlerIndex.Php

def decodeSingleQuoted : List Char → List Char
  | '\\' :: '\\' :: rest => '\\' :: decodeSingleQuoted rest
  | '\\' :: '\'' :: rest => '\'' :: decodeSingleQuoted rest
  | c :: rest => c :: decodeSingleQuoted rest
  | [] => []

def escapedChar : Char → Option Char
  | 'n' => some '\n'
  | 't' => some '\t'
  | 'r' => some '\r'
  | 'v' => some '\x0b'
  | 'e' => some '\x1b'
  | 'f' => some '\x0c'
  | '0' => some '\x00'
  | '\\' => some '\\'
  | '$' => some '$'
  | '"' => some '"'
  | _ => none

def decodeDoubleQuoted : List Char → List Char
  | '\\' :: c :: rest =>
    match escapedChar c with
    | some decoded => decoded :: decodeDoubleQuoted rest
    | none => '\\' :: c :: decodeDoubleQuoted rest
  | c :: rest => c :: decodeDoubleQuoted rest
  | [] => []

end HandlerIndex.Php
